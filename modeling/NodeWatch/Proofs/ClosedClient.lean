import Mathlib.Logic.Relation
import NodeWatch.Proofs.StaysClosed

/-! A client that is closed. The delivery that was being carried out is carried out to its end, and
after it no user code is called any more; the background worker takes no removal, and drops the one it
has when it wakes; and whatever is asked of the client is refused. -/

namespace NodeWatch

open Client (invocations invocations_append StaysClosed)

namespace Queue

variable {α : Type} {q q' : Queue α} {p p' : Party} {x : α}

/-! A party in line stays in line, as long as no place that was promised is given back. -/

theorem stalls_iff : q.stalls p = true ↔ q.isOpen = true ∧ p ∈ q.line ∧ p ∉ q.admitted := by
  simp [stalls, and_assoc]

theorem offer_of_stalls (h : q.stalls p = true) (x : α) : q.offer p x = .mustWait q := by
  obtain ⟨hopen, hline, hadmitted⟩ := stalls_iff.mp h
  simp [offer, hopen, hline, hadmitted]

theorem stalls_of_accepted (h : q.stalls p = true) (ho : q.offer p' x = .accepted q') :
    q'.stalls p = true := by
  rw [stalls_iff] at h ⊢
  obtain ⟨hopen, hline, hadmitted⟩ := h
  simp only [offer, hopen, Bool.not_true, Bool.false_eq_true, if_false] at ho
  split at ho
  · obtain rfl := Offer.accepted.inj ho
    exact ⟨rfl, hline, fun hm => hadmitted (List.mem_of_mem_erase hm)⟩
  · split at ho
    · cases ho
    · split at ho
      · obtain rfl := Offer.accepted.inj ho
        exact ⟨rfl, hline, hadmitted⟩
      · cases ho

theorem stalls_of_mustWait (h : q.stalls p = true) (ho : q.offer p' x = .mustWait q') :
    q'.stalls p = true := by
  rw [stalls_iff] at h ⊢
  obtain ⟨hopen, hline, hadmitted⟩ := h
  simp only [offer, hopen, Bool.not_true, Bool.false_eq_true, if_false] at ho
  split at ho
  · cases ho
  · split at ho
    · obtain rfl := Offer.mustWait.inj ho
      exact ⟨hopen, hline, hadmitted⟩
    · split at ho
      · cases ho
      · obtain rfl := Offer.mustWait.inj ho
        exact ⟨rfl, List.mem_append_left _ hline, hadmitted⟩

theorem stalls_of_withdraw (h : q.stalls p = true) (hp : p ≠ p') (ha : p' ∉ q.admitted) :
    (q.withdraw p').stalls p = true := by
  rw [stalls_iff] at h ⊢
  obtain ⟨hopen, hline, hadmitted⟩ := h
  rw [withdraw, if_neg ha]
  exact ⟨hopen, (List.mem_erase_of_ne hp).mpr hline, hadmitted⟩

end Queue

namespace Engine

variable {a : Action} {s t : Engine}

inductive Handling (s : Engine) (a : Action) (t : Engine) : Prop
  | kept (queue : t.client.removals = s.client.removals)
    (worker : t.worker.isStopped = s.worker.isStopped)
  | offered (p : Party) (b : BackgroundRemoval)
    (offer : s.client.removals.offer p b = .accepted t.client.removals ∨
      s.client.removals.offer p b = .mustWait t.client.removals)
    (worker : t.worker.isStopped = s.worker.isStopped)
  | took (b : BackgroundRemoval) (action : a = .turn)
    (take : s.client.removals.take? = some (b, t.client.removals))
    (worker : t.worker.isStopped = s.worker.isStopped)
  | withdrew (id : Nat) (action : a = .abandon id)
    (queue : t.client.removals = s.client.removals.withdraw (.caller id))
    (worker : t.worker.isStopped = s.worker.isStopped)
  | shut (worker : t.worker = .stopped) (queue : t.client.removals = s.client.removals.close)

theorem isStopped_put (s : Engine) (p : Party) (o : Operation) (c : Client) :
    (s.put p o c).worker.isStopped = s.worker.isStopped := by
  cases p with
  | caller | listener => rfl
  | remover =>
    simp only [put]
    cases s.worker <;> cases o <;> rfl

theorem handling_put {p : Party} {m : Move} {o o' : Operation} {c : Client}
    (hm : o.move m p s.client = some (o', c)) : Handling s a (s.put p o' c) := by
  have hworker := isStopped_put s p o' c
  have hclient := client_put s p o' c
  by_cases ho : ∀ b st, o ≠ .enrolment b st
  · exact .kept (by rw [hclient, Operation.removals_move hm ho]) hworker
  · simp only [not_forall, not_not] at ho
    obtain ⟨b, st, rfl⟩ := ho
    cases Operation.moves hm with
    | refused => exact .kept (by rw [hclient]) hworker
    | enrolled b q offer => exact .offered p b (.inl (by rw [hclient]; exact offer)) hworker
    | lining b q offer => exact .offered p b (.inr (by rw [hclient]; exact offer)) hworker

theorem handling_act (h : act a s = some t) : Handling s a t := by
  rcases act_change_or_shutdown h with hch | ⟨_, hsd⟩
  · cases hch with
    | begun o => exact .kept (Operation.undisturbed_start o s.client).removals rfl
    | moved p m o o' c action task move => exact handling_put move
    | concluded b r worker =>
      refine .kept ?_ ?_
      · exact (Client.Undisturbed.of_remarked (Worker.remarked_conclude b r s.client)).removals
      · cases hb : b.callback <;> cases r <;> simp [Worker.conclude, hb, worker, Worker.isStopped]
    | reported f e sent c worker send =>
      have hc : c = (s.client.send .remover (.completion f e)).2 := by rw [send]
      refine .kept ?_ ?_
      · rw [hc, Client.removals_send]
      · cases sent <;> simp [worker, Worker.isStopped]
    | dispatched conduct d => exact .kept (Client.removals_deliver conduct _ d) rfl
    | took b q worker take => exact .took b rfl take (by rw [worker]; rfl)
    | retired => exact .shut rfl rfl
    | undertook b worker =>
      exact .kept (Removal.undisturbed_start b.request s.client).removals (by rw [worker]; rfl)
    | stirred w action same =>
      refine .kept rfl ?_
      generalize s.worker = w' at same
      cases same <;> rfl
    | heard e => exact .kept (by cases e <;> rfl) rfl
    | performed d => exact .kept (Client.removals_apply _ d) rfl
    | abandoned id => exact .withdrew id rfl rfl rfl
    | silenced | lagged | deafened | fed | feedEnded | released | collected => exact .kept rfl rfl
  · cases hsd with
    | dispatching | listener => exact .kept rfl rfl
    | worker => exact .shut rfl rfl

theorem Reachable.isStopped {settings : Settings} {feed : Option Nat}
    (h : Reachable settings feed s) : s.worker.isStopped = !s.client.removals.isOpen := by
  induction h with
  | built h =>
    obtain ⟨d, r, _, hr, rfl⟩ := build_eq h
    rw [(Queue.ofCapacity_eq_ok.mp hr).2.2]
    rfl
  | step a _ h ih =>
    cases handling_act h with
    | kept queue worker => rw [worker, queue, ih]
    | offered p b offer worker => rw [worker, Queue.isOpen_of_offer offer, ih]
    | took b action take worker => rw [worker, Queue.isOpen_take take, ih]
    | withdrew id action queue worker => rw [worker, queue, Queue.isOpen_withdraw, ih]
    | shut worker queue =>
      rw [worker, queue]
      rfl

/-- A background removal waits for room: it is in line for the queue of removals, and no place has become
free for it yet. -/
structure Queues (s : Engine) (id : Nat) (b : BackgroundRemoval) : Prop where
  task : s.call? id = some (.enrolment b .offering)
  stalls : s.client.removals.stalls (.caller id) = true

inductive Dismissal (id : Nat) (b : BackgroundRemoval) (s : Engine) : Prop
  | queueing (queues : s.Queues id b)
  | turnedAway (task : s.call? id = some (.enrolment b .offering))
    (shut : s.client.removals.isOpen = false)
  | refused (task : s.call? id = some (.enrolment b (.done (.error .closed))))
  | gone (task : s.call? id = none) (known : id < s.nextCall)

theorem nextCall_act (h : act a s = some t) : s.nextCall ≤ t.nextCall := by
  rcases act_change_or_shutdown h with hch | ⟨_, hsd⟩
  · cases hch with
    | begun => exact Nat.le_succ _
    | moved p => cases p <;> exact Nat.le_refl _
    | _ => exact Nat.le_refl _
  · cases hsd <;> exact Nat.le_refl _

theorem call?_of_offering {id : Nat} {b : BackgroundRemoval} (hs : s.Orderly)
    (h : act a s = some t) (htask : s.call? id = some (.enrolment b .offering)) :
    t.call? id = some (.enrolment b .offering) ∨
      t.call? id = some (.enrolment b (.done (.error .closed))) ∨
      (∃ q, s.client.removals.offer (.caller id) b = .accepted q) ∨ t.call? id = none := by
  cases course hs h with
  | started p o party free task client others =>
    refine .inl ((others (.caller id) ?_).trans htask)
    rintro rfl
    rw [show s.task? (.caller id) = s.call? id from rfl, htask] at free
    cases free
  | moved p m o o' party task move after others =>
    by_cases hp : Party.caller id = p
    · subst hp
      obtain rfl := Option.some.inj (htask.symm.trans task)
      have hafter : t.call? id = some o' := after.resolve_right fun hl => Party.noConfusion hl.1
      rw [hafter]
      generalize t.client = c at move
      cases Operation.moves move with
      | refused => exact .inr (.inl rfl)
      | enrolled b q offer => exact .inr (.inr (.inl ⟨q, offer⟩))
      | lining => exact .inl rfl
    · exact .inl ((others _ hp).trans htask)
  | beside kept =>
    rcases kept (.caller id) with hk | ⟨hk, _⟩
    · exact .inl (hk.trans htask)
    · exact .inr (.inr (.inr hk))

theorem call?_of_finished {id : Nat} {o : Operation} (hs : s.Orderly) (h : act a s = some t)
    (htask : s.call? id = some o) (hf : o.Finished) :
    t.call? id = some o ∨ t.call? id = none := by
  cases course hs h with
  | started p o' party free task client others =>
    refine .inl ((others (.caller id) ?_).trans htask)
    rintro rfl
    exact absurd (free.symm.trans htask) nofun
  | moved p m o₁ o₂ party task move after others =>
    refine .inl ((others (.caller id) ?_).trans htask)
    rintro rfl
    obtain rfl := Option.some.inj (htask.symm.trans task)
    rw [Operation.move_of_finished hf] at move
    cases move
  | beside kept =>
    rcases kept (.caller id) with hk | ⟨hk, _⟩
    · exact .inl (hk.trans htask)
    · exact .inr hk

theorem call?_of_gone {id : Nat} (hs : s.Orderly) (h : act a s = some t)
    (hnone : s.call? id = none) (hid : id < s.nextCall) : t.call? id = none := by
  rcases act_change_or_shutdown h with hch | ⟨_, hsd⟩
  · cases hch with
    | begun o =>
      refine (task?_begun hs _ _ (.caller id)).trans ((if_neg fun he => ?_).trans hnone)
      exact Nat.ne_of_lt hid (Party.caller.inj he)
    | moved p m o o' c action task move =>
      refine ((task?_put task move).2 (.caller id) ?_).trans hnone
      rintro rfl
      exact absurd (hnone.symm.trans task) nofun
    | abandoned id' => exact (task?_dismissed s id' _ (.caller id)).trans (by split <;> trivial)
    | collected id' =>
      exact (task?_dismissed s id' s.client (.caller id)).trans (by split <;> trivial)
    | _ => exact hnone
  · cases hsd <;> exact hnone

theorem lt_nextCall {id : Nat} {o : Operation} (hs : s.Orderly) (h : s.call? id = some o) :
    id < s.nextCall := by
  obtain ⟨l₁, l₂, hl, _⟩ := List.lookup_eq_some_iff.mp h
  exact hs.2 (id, o) (hl ▸ List.mem_append_right _ (.head _))

theorem call?_abandon {id : Nat} (h : act (.abandon id) s = some t) : t.call? id = none := by
  obtain ⟨o, _, rfl⟩ := Option.map_eq_some_iff.mp h
  exact (task?_dismissed s id _ (.caller id)).trans (if_pos rfl)

theorem stalls_act {p : Party} (hc : s.client.closed = true)
    (hkept : ∀ id, a = .abandon id → p ≠ .caller id ∧ .caller id ∉ s.client.removals.admitted)
    (h : act a s = some t) (hstalls : s.client.removals.stalls p = true) :
    t.client.removals.stalls p = true ∨ t.client.removals.isOpen = false := by
  cases handling_act h with
  | kept queue => exact .inl (queue ▸ hstalls)
  | offered p' b offer =>
    rcases offer with offer | offer
    · exact .inl (Queue.stalls_of_accepted hstalls offer)
    · exact .inl (Queue.stalls_of_mustWait hstalls offer)
  | took b action =>
    subst action
    cases turn_shutdown hc h
    exact .inr rfl
  | withdrew id action queue =>
    obtain ⟨hne, hadmitted⟩ := hkept id action
    exact .inl (queue ▸ Queue.stalls_of_withdraw hstalls hne hadmitted)
  | shut worker queue => exact .inr (queue ▸ rfl)

theorem shut_act (h : act a s = some t) (hshut : s.client.removals.isOpen = false) :
    t.client.removals.isOpen = false := by
  cases handling_act h with
  | kept queue => rw [queue, hshut]
  | offered p b offer => rw [Queue.isOpen_of_offer offer, hshut]
  | took b action take => rw [Queue.isOpen_take take, hshut]
  | withdrew id action queue => rw [queue, Queue.isOpen_withdraw, hshut]
  | shut worker queue => exact queue ▸ rfl

theorem Dismissal.act {id : Nat} {b : BackgroundRemoval} (hd : Dismissal id b s) (hs : s.Orderly)
    (hc : s.client.closed = true)
    (hkept : ∀ id', a = .abandon id' → .caller id' ∉ s.client.removals.admitted)
    (h : act a s = some t) : Dismissal id b t := by
  cases hd with
  | queueing queues =>
    -- It keeps its place in line, since no place becomes free any more, until the queue is closed.
    rcases call?_of_offering hs h queues.task with htask | htask | ⟨q, hoffer⟩ | htask
    · have hstalls : t.client.removals.stalls (.caller id) = true ∨
          t.client.removals.isOpen = false := by
        refine stalls_act hc (fun id' ha => ⟨?_, hkept id' ha⟩) h queues.stalls
        rintro ⟨⟩
        subst ha
        exact absurd ((call?_abandon h).symm.trans htask) nofun
      exact hstalls.elim (fun hst => .queueing ⟨htask, hst⟩) fun hshut => .turnedAway htask hshut
    · exact .refused htask
    · rw [Queue.offer_of_stalls queues.stalls] at hoffer
      cases hoffer
    · exact .gone htask (Nat.lt_of_lt_of_le (lt_nextCall hs queues.task) (nextCall_act h))
  | turnedAway task shut =>
    rcases call?_of_offering hs h task with htask | htask | ⟨q, hoffer⟩ | htask
    · exact .turnedAway htask (shut_act h shut)
    · exact .refused htask
    · have hrefused : s.client.removals.offer (.caller id) b = .refused := by
        simp [Queue.offer, shut]
      rw [hrefused] at hoffer
      cases hoffer
    · exact .gone htask (Nat.lt_of_lt_of_le (lt_nextCall hs task) (nextCall_act h))
  | refused task =>
    rcases call?_of_finished hs h task rfl with htask | htask
    · exact .refused htask
    · exact .gone htask (Nat.lt_of_lt_of_le (lt_nextCall hs task) (nextCall_act h))
  | gone task known =>
    exact .gone (call?_of_gone hs h task known) (Nat.lt_of_lt_of_le known (nextCall_act h))

def Goes (s t : Engine) : Prop :=
  ∃ a, act a s = some t

/-- Something happens, and no call is given up that was promised a place in the queue of removals; its
place would go to the next in line, who could then still use it. -/
def Keeping (s t : Engine) : Prop :=
  ∃ a, act a s = some t ∧
    ∀ id, a = .abandon id → .caller id ∉ s.client.removals.admitted

theorem goes_of_keeping (h : Relation.ReflTransGen Keeping s t) :
    Relation.ReflTransGen Goes s t :=
  Relation.ReflTransGen.mono (r := Keeping) (p := Goes) (fun _ _ ⟨a, ha, _⟩ => ⟨a, ha⟩) _ _ h

theorem exists_stopped (hc : s.client.closed = true) (hw : s.worker.isStopped = false) :
    ∃ t, Relation.ReflTransGen Goes s t ∧ t.calls = s.calls ∧ t.client.removals.isOpen = false := by
  have hturn : ∀ v : Engine, v.client.closed = true → v.worker.isAwake = false →
      v.worker.isStopped = false →
      act .turn v = some { v with worker := .stopped, client := (Worker.stop v.client).2 } := by
    intro v hv ha hn
    have hstop := Worker.turn_of_closed hv ha hn v.orphaned
    simp only [act, updateWorker, hstop]
    rfl
  cases ha : s.worker.isAwake with
  | false => exact ⟨_, .single ⟨.turn, hturn s hc ha hw⟩, rfl, rfl⟩
  | true =>
    -- It has to come to a point at which it waits before it looks whether the client is closed.
    obtain ⟨w, hsleep, hasleep, hworking⟩ := Worker.exists_sleep ha
    have hslept : act .sleep s = some { s with worker := w } := by simp [act, hsleep]
    have hlast := hturn { s with worker := w } hc hasleep hworking
    exact ⟨_, .tail (.single ⟨.sleep, hslept⟩) ⟨.turn, hlast⟩, rfl, rfl⟩

/-- A removal that waited for room has no other outcome than that the client is closed, and comes to
it unless it was given up. -/
theorem Dismissal.outcome {id : Nat} {b : BackgroundRemoval} {settings : Settings}
    {feed : Option Nat} (hd : Dismissal id b s) (hr : Reachable settings feed s)
    (hc : s.client.closed = true) :
    (∀ x, s.outcome? id = some x → x = .enrolment (.error .closed)) ∧
      (s.call? id = none ∨ ∃ t, Relation.ReflTransGen Goes s t ∧
        t.outcome? id = some (.enrolment (.error .closed))) := by
  have hresume : ∀ v : Engine, v.call? id = some (.enrolment b .offering) →
      v.client.removals.isOpen = false → ∃ t, Goes v t ∧
        t.outcome? id = some (.enrolment (.error .closed)) := by
    intro v htask hshut
    refine ⟨v.setCall id (.enrolment b (.done (.error .closed))) v.client, ⟨.resume (.caller id), ?_⟩,
      ?_⟩
    · have hrefused : v.client.removals.offer (.caller id) b = .refused := by
        simp [Queue.offer, hshut]
      simp [Engine.act, resume, updateCall, htask, Operation.resume, Enrolment.resume, Queue.stalls,
        hshut, hrefused]
    · have hcall := task?_setCall v id (.enrolment b (.done (.error .closed))) v.client (.caller id)
      rw [if_pos rfl, show v.task? (.caller id) = _ from htask] at hcall
      rw [outcome?, show call? _ id = _ from hcall]
      rfl
  cases hd with
  | queueing queues =>
    refine ⟨fun x hx => ?_, .inr ?_⟩
    · rw [outcome?, queues.task] at hx
      cases hx
    · have hworking : s.worker.isStopped = false := by
        rw [hr.isStopped, (Queue.stalls_iff.mp queues.stalls).1]
        rfl
      obtain ⟨v, hrun, hcalls, hshut⟩ := exists_stopped hc hworking
      have htask : v.call? id = some (.enrolment b .offering) := by
        rw [call?, hcalls]
        exact queues.task
      obtain ⟨t, hgoes, hx⟩ := hresume v htask hshut
      exact ⟨t, hrun.tail hgoes, hx⟩
  | turnedAway task shut =>
    refine ⟨fun x hx => ?_, .inr ?_⟩
    · rw [outcome?, task] at hx
      cases hx
    · obtain ⟨t, hgoes, hx⟩ := hresume s task shut
      exact ⟨t, .single hgoes, hx⟩
  | refused task =>
    have hx : s.outcome? id = some (.enrolment (.error .closed)) := by
      rw [outcome?, task]
      rfl
    exact ⟨fun x h => Option.some.inj (h.symm.trans hx), .inr ⟨s, .refl, hx⟩⟩
  | gone task =>
    refine ⟨fun x hx => ?_, .inl task⟩
    rw [outcome?, task] at hx
    cases hx

end Engine

def Order.refusal : Order → Outcome
  | .arm _ => .read (.error .closed)
  | .remove _ => .removal (.error .closed)
  | .enrol _ => .enrolment (.error .closed)
  | .notify _ | .session _ => .handled

theorem Operation.start_of_closed {c : Client} (hc : c.closed = true) (o : Order) :
    ∃ op, start o c = (op, c) ∧ op.outcome? = some o.refusal := by
  cases o with
  | arm a => exact ⟨.arming a (.done _), by simp [start, Arming.start, hc, Prod.map], rfl⟩
  | remove r => exact ⟨.removal r (.done _), by simp [start, Removal.startOpen, hc, Prod.map], rfl⟩
  | enrol b => exact ⟨.enrolment b (.done _), by simp [start, Enrolment.start, hc, Prod.map], rfl⟩
  | notify e => exact ⟨.notification .done, by simp [start, Notification.start, hc, Prod.map], rfl⟩
  | session e => exact ⟨.session .done, by simp [start, Session.startOpen, hc, Prod.map], rfl⟩

namespace Client

structure Still (c c' : Client) : Prop where
  registry : c'.registry = c.registry
  ledger : c'.ledger = c.ledger
  deliveries : c'.deliveries.items = c.deliveries.items
  journal : c'.journal = c.journal

end Client

namespace Engine

variable {a : Action} {s t u v : Engine}

/-- The delivery that is being carried out, with those who listen meanwhile. -/
def inHand (s : Engine) : Action → List (List String × Delivery)
  | .dispatch _ => (s.client.deliveries.items.take 1).map (s.client.listeners, ·)
  | _ => []

/-- The calls of user code under way: all those of one delivery, while it is carried out. -/
def inProgress (s : Engine) (a : Action) : List Call :=
  (s.inHand a).flatMap fun x => x.2.calls x.1

def Action.ofWorker : Action → Bool
  | .turn | .sleep | .resume .remover | .answer .remover .. | .timeOut .remover _
  | .retry .remover _ => true
  | _ => false

structure Closes (u : Engine) (a : Action) (s : Engine) : Prop where
  worker : s.worker = u.worker
  calls : s.calls = u.calls
  removals : s.client.removals = u.client.removals
  finished : invocations s.client.journal = invocations u.client.journal ++ u.inProgress a
  called : Delivery.CarriedOut (u.inHand a) (u.inProgress a)

theorem closes (hs : u.Orderly) (ho : u.client.closed = false) (h : act a u = some s)
    (hc : s.client.closed = true) : Closes u a s := by
  cases traffic_of_change hs (act_change ho h) with
  | idled connected idles =>
    rw [idles.closed, ho] at hc
    cases hc
  | sent p d ds party due client =>
    rw [client, Client.closed_send, ho] at hc
    cases hc
  | carried conduct d q action take client =>
    subst action
    have hremovals := Client.removals_deliver conduct { u.client with deliveries := q } d
    have hfinished : invocations s.client.journal =
        invocations u.client.journal ++ d.calls u.client.listeners := by
      obtain ⟨os, hj, hcalls, _⟩ :=
        (Client.Runs.deliver conduct { u.client with deliveries := q } d).journal
      rw [client, hj, invocations_append, hcalls]
    have hprogress : u.inProgress (.dispatch conduct) = d.calls u.client.listeners := by
      rw [inProgress, inHand, Queue.items_take take]
      exact List.append_nil _
    rw [← client] at hremovals
    refine ⟨?_, ?_, hremovals, hprogress ▸ hfinished, Delivery.carriedOut_calls _⟩
    all_goals
      simp only [act, dispatch, ho, take, Bool.false_eq_true, if_false] at h
      split at h
      · cases h
      · obtain rfl := Option.some.inj h
        rfl
  | silenced conduct action silent after =>
    rw [after] at hc
    cases ho.symm.trans hc
  | withdrew p due closed =>
    rw [closed, ho] at hc
    cases hc
  | performed d action =>
    subst action
    simp only [act] at h
    split at h
    · obtain rfl := Option.some.inj h
      cases d with
      | close => exact ⟨rfl, rfl, rfl, (List.append_nil _).symm, .nothing⟩
      | addListener | removeListener => cases ho.symm.trans hc
    · cases h

theorem turned (hc : s.client.closed = true) (h : act .turn s = some t) :
    t.worker = .stopped ∧ s.client.Still t.client := by
  cases turn_shutdown hc h
  exact ⟨rfl, rfl, rfl, Queue.items_withdraw _ _, rfl⟩

theorem eq_turn_of_asleep (hw : s.worker.isAwake = false) (ha : a.ofWorker = true)
    (h : act a s = some t) : a = .turn := by
  have hresume := Worker.resume_of_asleep hw s.client
  have hanswer := fun slot x => Worker.answer_of_asleep hw slot x s.client
  have hsleep := Worker.sleep_of_asleep hw
  cases a with
  | turn => rfl
  | sleep => simp [act, hsleep] at h
  | resume p =>
    cases p with
    | remover => simp [act, resume, updateWorker, hresume] at h
    | caller | listener => cases ha
  | answer p slot x =>
    cases p with
    | remover => simp [act, answer, updateWorker, hanswer] at h
    | caller | listener => cases ha
  | timeOut p slot =>
    cases p with
    | remover => cases h
    | caller | listener => cases ha
  | retry p slot =>
    cases p with
    | remover => cases h
    | caller | listener => cases ha
  | begin | dispatch | listen | feed | endFeed | perform | release | abandon | collect => cases ha

theorem refused (hs : s.Orderly) (hc : s.client.closed = true) (hh : s.held = true) (o : Order) :
    ∃ t, act (.begin o) s = some t ∧ t.client = s.client ∧
      t.outcome? s.nextCall = some o.refusal := by
  obtain ⟨op, hstart, hout⟩ := Operation.start_of_closed hc o
  have hact : act (.begin o) s = some { s with
      calls := s.calls ++ [(s.nextCall, op)]
      nextCall := s.nextCall + 1
      client := s.client } := by
    simp only [act, begin, hstart, if_pos hh]
  refine ⟨_, hact, rfl, ?_⟩
  have htask := task?_begun hs op s.client (.caller s.nextCall)
  rw [if_pos rfl] at htask
  rw [outcome?, show call? _ s.nextCall = some op from htask]
  exact hout

/-- A removal handed in for the background is answered that the client is closed, or given up
before it is answered. -/
def Dismissed (t : Engine) (id : Nat) : Prop :=
  (∀ x, t.outcome? id = some x → x = .enrolment (.error .closed)) ∧
    (t.call? id = none ∨ ∃ v, Relation.ReflTransGen Goes t v ∧
      v.outcome? id = some (.enrolment (.error .closed)))

/-- What a run of a closed client has come to, and what it can still come to. -/
structure Sealed (s t : Engine) : Prop where
  client : s.client.StaysClosed t.client
  worker : s.worker.Winds t.worker
  turned : ∀ v, act .turn t = some v → v.worker = .stopped ∧ t.client.Still v.client
  /-- What waited when the client was closed comes to nothing. -/
  asleep : s.worker.isAwake = false → ∀ b v, b.ofWorker = true → act b t = some v →
    v.worker = .stopped ∧ t.client.Still v.client
  refused : t.held = true → ∀ o, ∃ v, act (.begin o) t = some v ∧ v.client = t.client ∧
    v.outcome? t.nextCall = some o.refusal
  reclosed : t.held = true → act (.perform .close) t = some t
  /-- What waits for room is refused, whether it began to wait before the client was closed or after. -/
  dismissed : ∀ id b v, t.Queues id b → Relation.ReflTransGen Keeping t v → v.Dismissed id

theorem staysClosed_of_goes (hs : s.Orderly) (hc : s.client.closed = true)
    (h : Relation.ReflTransGen Goes s t) :
    t.Orderly ∧ s.client.StaysClosed t.client ∧ s.worker.Winds t.worker := by
  induction h with
  | refl => exact ⟨hs, .refl hc, .refl _⟩
  | tail _ hstep ih =>
    obtain ⟨a, ha⟩ := hstep
    obtain ⟨horderly, hstays, hwinds⟩ := ih
    exact ⟨orderly_act horderly ha, hstays.trans (staysClosed_act horderly hstays.closed ha),
      hwinds.trans (winds_act hstays.closed ha)⟩

theorem Queues.dismissal {id : Nat} {b : BackgroundRemoval} (hq : s.Queues id b) (hs : s.Orderly)
    (hc : s.client.closed = true) (h : Relation.ReflTransGen Keeping s t) : Dismissal id b t := by
  induction h with
  | refl => exact .queueing hq
  | tail hrun hstep ih =>
    obtain ⟨a, ha, hkept⟩ := hstep
    obtain ⟨horderly, hstays, _⟩ := staysClosed_of_goes hs hc (goes_of_keeping hrun)
    exact ih.act horderly hstays.closed hkept ha

/-- When the client is closed, only the delivery that is being carried out is carried out to its end,
and from then on nothing is done by the workers, nor for anybody who asks. -/
theorem sealed_of_close {settings : Settings} {feed : Option Nat} (hr : Reachable settings feed u)
    (ho : u.client.closed = false) (h : act a u = some s) (hc : s.client.closed = true)
    (hrun : Relation.ReflTransGen Goes s t) : Closes u a s ∧ Sealed s t := by
  have hs : s.Orderly := (Reachable.step a hr h).orderly
  have ht : Reachable settings feed t := (Reachable.step a hr h).run hrun
  obtain ⟨horderly, hstays, hwinds⟩ := staysClosed_of_goes hs hc hrun
  refine ⟨closes hr.orderly ho h hc, hstays, hwinds, fun v hv => turned hstays.closed hv, ?_,
    fun hh o => refused horderly hstays.closed hh o, fun hh => ?_, ?_⟩
  · intro hw b v hb hv
    have hasleep : t.worker.isAwake = false := by
      rcases hwinds.asleep hw with he | he
      · rw [he, hw]
      · rw [he]
        rfl
    obtain rfl := eq_turn_of_asleep hasleep hb hv
    exact turned hstays.closed hv
  · have hclose : t.client.close = t.client := by rw [Client.close, ← hstays.closed]
    simp only [act, if_pos hh, Client.apply, hclose]
  · intro id b v hq hkeeping
    have hgoes := goes_of_keeping hkeeping
    obtain ⟨_, hlater, _⟩ := staysClosed_of_goes horderly hstays.closed hgoes
    exact (hq.dismissal horderly hstays.closed hkeeping).outcome (ht.run hgoes) hlater.closed

/-- The first of two listeners closes the client: the second one still hears that the connection is
lost, none of them that it is back, and the removal that waited for room is refused. -/
theorem sealed_by_listener :
    ∃ (u : Engine) (a : Action) (s t : Engine), Reachable { backgroundQueueSize := 1 } none u ∧
      act a u = some s ∧ Relation.ReflTransGen Goes s t ∧ Closes u a s ∧ Sealed s t ∧
      invocations t.client.journal =
        ["l", "m"].map (.listener · (.watched (.linkChange .disconnected) none)) ∧
      (t.outcome? 3 matches some (.enrolment (.error .closed))) := by
  have hb : build { backgroundQueueSize := 1 } none =
      .built (initial { backgroundQueueSize := 1 } ⟨1024, [], [], [], true⟩ ⟨1, [], [], [], true⟩
        none) := rfl
  have hrun : (follow [.perform (.addListener "l"), .perform (.addListener "m"),
      .begin (.session .disconnected), .resume (.caller 0), .begin (.session .reconnected),
      .resume (.caller 1), .begin (.enrol ⟨⟨"/a", .any, .all, false, false⟩, none⟩),
      .resume (.caller 2), .begin (.enrol ⟨⟨"/a", .any, .all, false, false⟩, none⟩),
      .resume (.caller 3)]
        (initial { backgroundQueueSize := 1 } ⟨1024, [], [], [], true⟩ ⟨1, [], [], [], true⟩
          none)).any (fun u => !u.client.closed &&
      (act (.dispatch fun _ _ => { deeds := [.close] }) u).any fun s => s.client.closed &&
      (act .turn s).any fun v => (act (.resume (.caller 3)) v).any fun t =>
        decide (invocations t.client.journal =
          ["l", "m"].map (.listener · (.watched (.linkChange .disconnected) none))) &&
        (t.outcome? 3 matches some (.enrolment (.error .closed)))) = true := by
    decide +kernel
  obtain ⟨u, hu, hrun⟩ := (Option.any_eq_true _ _).mp hrun
  obtain ⟨ho, hrun⟩ := Bool.and_eq_true_iff.mp hrun
  obtain ⟨s, hs, hrun⟩ := (Option.any_eq_true _ _).mp hrun
  obtain ⟨hc, hrun⟩ := Bool.and_eq_true_iff.mp hrun
  obtain ⟨v, hv, hrun⟩ := (Option.any_eq_true _ _).mp hrun
  obtain ⟨t, ht, hrun⟩ := (Option.any_eq_true _ _).mp hrun
  obtain ⟨hcalls, hout⟩ := Bool.and_eq_true_iff.mp hrun
  have hr := reachable_of_follow (.built hb) hu
  have hgoes : Relation.ReflTransGen Goes s t := .tail (.single ⟨_, hv⟩) ⟨_, ht⟩
  obtain ⟨hcloses, hsealed⟩ := sealed_of_close hr (by simpa using ho) hs hc hgoes
  exact ⟨u, _, s, t, hr, hs, hgoes, hcloses, hsealed, of_decide_eq_true hcalls, hout⟩

end Engine

end NodeWatch
