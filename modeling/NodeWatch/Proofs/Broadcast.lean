import NodeWatch.Proofs.DeliveryCarriage
import NodeWatch.Proofs.JournalGrounds
import NodeWatch.Proofs.StaysClosed

/-! What the listeners are told of removals. Whether an event confirms a removal is read off its type
and its state when it is delivered. Of the announcements to the listeners exactly those of entries that
removals took out are read so, and each of them is delivered at most once; but a notification without
a path is passed on as it came, and may look the same. -/

namespace NodeWatch

open Client (invocations mem_invocations sendings tellings_of_sendings)

/-- A listener is told that a removal took out an entry. -/
def confirmation (l : String) (e : Entry) : Call :=
  .listener l (.watched (.removed e .syncConnected) (some e.kind))

theorem confirmation_ne (l l' : String) (e : Entry) (ev : WatchedEvent) :
    confirmation l e ≠ .listener l' (.watched ev none) :=
  nofun

/-- The call tells a listener of a removal that this client asked for. -/
def Call.confirms : Call → Bool
  | listener _ ev => ev.confirmed
  | watcher .. | fallible .. | callback .. => false

theorem confirms_of_calls {d : Delivery} {ls : List String} {x : Call} (hx : x ∈ d.calls ls)
    (hc : x.confirms = true) :
    (∃ k ev l, d = .watched .default k ev ∧ ev.confirmsRemoval = true ∧ l ∈ ls ∧
        x = .listener l (.watched ev (some k))) ∨
      ∃ ev l, d = .state ev ∧ ev.confirmsRemoval = true ∧ l ∈ ls ∧
        x = .listener l (.watched ev none) := by
  cases d with
  | watched sub k ev =>
    cases sub with
    | default =>
      obtain ⟨l, hl, rfl⟩ := List.mem_map.mp hx
      exact .inl ⟨k, ev, l, rfl, hc, hl, rfl⟩
    | watcher o | fallible o =>
      rw [List.mem_singleton.mp hx] at hc
      cases hc
  | state ev =>
    obtain ⟨l, hl, rfl⟩ := List.mem_map.mp hx
    exact .inr ⟨ev, l, rfl, hc, hl, rfl⟩
  | completion f e =>
    rw [List.mem_singleton.mp hx] at hc
    cases hc

theorem removed_inj {e e' : Entry} {st st' : LinkState}
    (h : Delivery.removed e st = Delivery.removed e' st') : e = e' ∧ st = st' := by
  obtain ⟨path, kind, sub⟩ := e
  obtain ⟨path', kind', sub'⟩ := e'
  simp only [Delivery.removed, WatchedEvent.removed, Delivery.watched.injEq, WatchedEvent.mk.injEq,
    Option.some.injEq] at h
  obtain ⟨rfl, rfl, _, rfl, rfl⟩ := h
  exact ⟨rfl, rfl⟩

theorem confirmation_inj {l l' : String} {e e' : Entry} (hs : e.subscriber = e'.subscriber)
    (h : confirmation l e = confirmation l' e') : l = l' ∧ e = e' := by
  obtain ⟨path, kind, sub⟩ := e
  obtain ⟨path', kind', sub'⟩ := e'
  obtain rfl : sub = sub' := hs
  obtain ⟨rfl, hev⟩ := Call.listener.inj h
  obtain ⟨hev, hkind⟩ := ClientEvent.watched.inj hev
  obtain rfl := Option.some.inj hkind
  obtain rfl := Option.some.inj (congrArg WatchedEvent.path hev)
  exact ⟨rfl, rfl⟩

namespace Consumption

variable {y : Consumption}

/-- Of the announcements only those of removed entries confirm a removal. -/
theorem confirms_announcement (hy : y.Due) {ls : List String} {x : Call}
    (hx : x ∈ y.announcement.calls ls) (hc : x.confirms = true) :
    y.cause = .removed ∧ y.entry.subscriber = .default ∧ ∃ l ∈ ls, x = confirmation l y.entry := by
  obtain ⟨cause, e⟩ := y
  obtain ⟨k, ev, l, hd, hev, hl, rfl⟩ | ⟨ev, l, hd, _⟩ := confirms_of_calls hx hc
  · cases cause with
    | fired event =>
      obtain ⟨_, _, rfl⟩ := Delivery.watched.inj hd
      rw [WatchedEvent.confirmsRemoval, Engine.not_removal_of_triggers hy.2] at hev
      cases hev
    | removed =>
      obtain ⟨hdefault, rfl, rfl⟩ := Delivery.watched.inj hd
      exact ⟨rfl, hdefault, l, hl, rfl⟩
    | expired =>
      obtain ⟨_, _, rfl⟩ := Delivery.watched.inj hd
      rw [WatchedEvent.confirmsRemoval, Bool.and_eq_true] at hev
      cases hev.2
  · cases cause <;> cases hd

/-- No two consumptions share the announcement of a removal. -/
theorem announcement_eq_removed (hy : y.Due) {e : Entry} :
    y.announcement = .removed e .syncConnected ↔ y = ⟨.removed, e⟩ := by
  obtain ⟨cause, e'⟩ := y
  constructor
  · intro h
    cases cause with
    | fired event =>
      obtain ⟨_, _, rfl⟩ := Delivery.watched.inj h
      have hremoval := (Engine.announced_of_kind e.kind).1
      rw [show (Selector.only e.kind).announced.isRemoval = false from
        Engine.not_removal_of_triggers hy.2] at hremoval
      cases hremoval
    | removed =>
      obtain ⟨rfl, _⟩ := removed_inj h
      rfl
    | expired => cases (removed_inj h).2
  · intro h
    rw [h]
    rfl

theorem count_announcements {m : Multiset Consumption} (hm : ∀ y ∈ m, y.Due) (e : Entry) :
    (m.map announcement).count (.removed e .syncConnected) = m.count ⟨.removed, e⟩ := by
  rw [Multiset.count_map, Multiset.count_eq_card_filter_eq]
  congr 1
  refine Multiset.filter_congr fun y hy => ?_
  rw [eq_comm, announcement_eq_removed (hm y hy), eq_comm]

end Consumption

/-- A change of the connection that looks like the confirmation of a removal was notified of. -/
def Delivery.VouchedBy (notices : List WatchedEvent) (d : Delivery) : Prop :=
  ∀ ev, d = .state ev → ev.confirmsRemoval = true → ev ∈ notices

theorem Delivery.VouchedBy.append {notices : List WatchedEvent} {d : Delivery}
    (h : d.VouchedBy notices) (evs : List WatchedEvent) : d.VouchedBy (notices ++ evs) :=
  fun ev hd hc => List.mem_append_left _ (h ev hd hc)

namespace Operation

variable {o o' : Operation} {c c' : Client} {ev : WatchedEvent}

/-- Operations of the client itself tell of no change of the connection that looks like that. -/
theorem notification_of_agenda (h : .state ev ∈ o.agenda) (hc : ev.confirmsRemoval = true) :
    ∃ st, o = .notification st := by
  cases o with
  | arming | enrolment => cases h
  | removal r st => cases st with
    | confirming es x =>
      obtain ⟨e, _, he⟩ := List.mem_map.mp h
      cases he
    | asking | checking | rearming | done => cases h
  | notification st => exact ⟨st, rfl⟩
  | session st => cases st with
    | expiring | reporting =>
      obtain rfl := Delivery.state.inj (List.mem_singleton.mp h)
      cases hc
    | dropping rs es =>
      obtain ⟨e, _, he⟩ := List.mem_map.mp h
      cases he
    | expired | resubmitting | done => cases h

theorem notify_of_start {x : Order} (h : .state ev ∈ (start x c).1.agenda)
    (hc : ev.confirmsRemoval = true) : x = .notify ev ∧ ev.path = none := by
  cases x with
  | arm | remove | enrol | session =>
    obtain ⟨st, hst⟩ := notification_of_agenda h hc
    cases hst
  | notify e =>
    change .state ev ∈ (Notification.start e c).1.agenda at h
    simp only [Notification.start] at h
    split at h
    · cases h
    · split at h
      · rename_i hp
        obtain rfl := Delivery.state.inj (List.mem_singleton.mp h)
        exact ⟨rfl, hp⟩
      · obtain ⟨y, _, hy⟩ := List.mem_map.mp h
        cases hy

theorem agenda_of_move {m : Move} {p : Party} (hm : o.move m p c = some (o', c'))
    (h : .state ev ∈ o'.agenda) (hc : ev.confirmsRemoval = true) : .state ev ∈ o.agenda := by
  obtain ⟨st, rfl⟩ := notification_of_agenda h hc
  cases moves hm with
  | notified => cases h
  | notifying d ds =>
    change .state ev ∈ (if _ then ds else d :: ds) at h
    split at h
    · exact .tail _ h
    · exact h

end Operation

namespace Engine

variable {a : Action} {s t : Engine}

/-- The notification without a path that is given to the client. -/
def Action.notice? : Action → Option WatchedEvent
  | .begin (.notify ev) => if ev.path.isNone then some ev else none
  | _ => none

/-- The call tells a listener of an entry of the listeners that a removal took out. -/
def Backs (s : Engine) (x : Call) : Prop :=
  ∃ l e, x = confirmation l e ∧ e.subscriber = .default ∧
    ⟨.removed, e⟩ ∈ takings s.client.journal

/-- The listeners were told of no removal but those that took out an entry of theirs. -/
def Genuine (s : Engine) : Prop :=
  ∀ x, .called x ∈ s.client.journal → x.confirms = true → s.Backs x

theorem announced_append {os : List Occurrence} (h : t.client.journal = os ++ s.client.journal) :
    t.client.announced = ↑(tellings os) + s.client.announced := by
  rw [Client.announced, h, List.filterMap_append, ← Multiset.coe_add]
  rfl

/-- What is put on the queue was next on the agenda of the party at work, and counts as announced if
it is for a subscriber. -/
theorem announced_act (hs : s.Orderly) (ho : s.client.closed = false) (hm : s.Manned)
    (h : act a s = some t) :
    t.client.announced =
        ↑(((s.handover a t).map Prod.snd).filter Delivery.isWatched) + s.client.announced ∧
      ∀ x ∈ s.handover a t, x.2 ∈ s.agenda x.1 := by
  have hquiet : ∀ os : List Occurrence, s.handover a t = [] →
      t.client.journal = os ++ s.client.journal → sendings os = [] →
      t.client.announced =
          ↑(((s.handover a t).map Prod.snd).filter Delivery.isWatched) + s.client.announced ∧
        ∀ x ∈ s.handover a t, x.2 ∈ s.agenda x.1 := by
    intro os hnone hj hos
    rw [announced_append hj, tellings_of_sendings hos, hnone]
    exact ⟨rfl, fun x hx => by cases hx⟩
  cases traffic_of_change hs (act_change ho h) with
  | idled connected idles agendas =>
    obtain ⟨os, hj, _, hsent⟩ := idles.journal
    exact hquiet os (handover_of_idles idles) hj hsent
  | sent p d ds party due client next others =>
    have hopen := (hm.tidy_of_due (p := p) (by simp [due])).2.isOpen
    have hhanded := handover_send party hopen client
    have hsent := s.client.sent p d
    generalize s.client.send p d = x at hsent client hhanded
    obtain ⟨done, c⟩ := x
    cases hsent with
    | dropped refused => exact absurd (hopen.symm.trans refused) nofun
    | queued q offer =>
      have hj : t.client.journal = [.queued d] ++ s.client.journal := by rw [client]; rfl
      rw [announced_append hj, hhanded]
      refine ⟨?_, fun x hx => ?_⟩
      · cases hd : d.isWatched <;> simp [tellings, Occurrence.announced?, hd]
      · rw [List.mem_singleton.mp hx, due]
        exact .head _
    | lined q offer => exact hquiet [] hhanded (by rw [client]; rfl) rfl
  | carried conduct d q action take client kept =>
    subst action
    obtain ⟨os, hj, _, hsent⟩ := (Client.Runs.deliver conduct { s.client with deliveries := q } d).journal
    exact hquiet os rfl (by rw [client, hj]) hsent
  | silenced conduct action silent after =>
    subst action
    exact hquiet [.remarked .deliveryQueueClosed] rfl (by rw [after]; rfl) rfl
  | withdrew p due closed journal deliveries gone others =>
    exact hquiet [] (handover_eq_nil (by rw [deliveries, Queue.items_withdraw])) journal rfl
  | performed d action client kept =>
    have hruns := Client.Runs.apply s.client d
    obtain ⟨os, hj, _, hsent⟩ := hruns.journal
    exact hquiet os (handover_eq_nil (by rw [client, hruns.deliveries])) (by rw [client, hj]) hsent

theorem vouched_act {notices : List WatchedEvent} (hs : s.Orderly) (ho : s.client.closed = false)
    (h : act a s = some t) (hv : ∀ x ∈ s.tasks, ∀ d ∈ x.2.agenda, d.VouchedBy notices) :
    ∀ x ∈ t.tasks, ∀ d ∈ x.2.agenda, d.VouchedBy (notices ++ a.notice?.toList) := by
  have hkept : ∀ x ∈ s.tasks, ∀ d ∈ x.2.agenda, d.VouchedBy (notices ++ a.notice?.toList) :=
    fun x hx d hd => (hv x hx d hd).append _
  cases act_turnover hs ho h with
  | started p o taken origin fresh after client handed =>
    intro x hx
    rw [after] at hx
    rcases Multiset.mem_cons.mp hx with rfl | hx
    · rintro d hd ev rfl hc
      obtain ⟨rfl, hp⟩ := Operation.notify_of_start hd hc
      cases origin with
      | call => exact List.mem_append_right _ (by simp [Action.notice?, hp])
    · exact hkept x hx
  | moved p m o o' rest action before move after handed =>
    have hrest : ∀ x ∈ rest, x ∈ s.tasks := fun x hx => before ▸ Multiset.mem_cons_of_mem hx
    rcases after with after | ⟨_, after⟩
    · intro x hx
      rw [after] at hx
      rcases Multiset.mem_cons.mp hx with rfl | hx
      · rintro d hd ev rfl hc
        exact hkept (p, o) (before ▸ Multiset.mem_cons_self _ _) _
          (Operation.agenda_of_move move hd hc) ev rfl hc
      · exact hkept x (hrest x hx)
    · exact fun x hx => hkept x (hrest x (after ▸ hx))
  | ended p o rest inside before finished after aside handed =>
    exact fun x hx => hkept x (before ▸ Multiset.mem_cons_of_mem (after ▸ hx))
  | abandoned id o rest action before after aside handed =>
    exact fun x hx => hkept x (before ▸ Multiset.mem_cons_of_mem (after ▸ hx))
  | beside inside after aside handed => exact fun x hx => hkept x (after ▸ hx)
  | silenced inside silent after =>
    subst after
    exact hkept

end Engine

/-- A client with the notifications without a path that it was given, the deliveries that were carried
out, each with the listeners of that moment, and the announcements that calls took along when they were
given up. -/
structure Broadcast where
  engine : Engine
  notices : List WatchedEvent
  carried : List (List String × Delivery)
  forgone : Multiset Delivery

namespace Broadcast

open Engine (Action act)

variable {w w' : Broadcast} {a : Action} {t : Engine}

def opening (s : Engine) : Broadcast :=
  ⟨s, [], [], 0⟩

/-- A closed client carries nothing out. -/
def after (w : Broadcast) (a : Action) (t : Engine) : Broadcast where
  engine := t
  notices := w.notices ++ a.notice?.toList
  carried := w.carried ++ if w.engine.client.closed then [] else w.engine.taken a
  forgone := w.engine.forgone a + w.forgone

inductive Step (w : Broadcast) : Broadcast → Prop
  | acted (a : Action) (t : Engine) (act : act a w.engine = some t) : Step w (w.after a t)

def deliveries (w : Broadcast) : List Delivery :=
  w.carried.map Prod.snd ++ w.engine.client.deliveries.items

/-- While the client is open, every announcement was carried out, or is still on the queue, on an
agenda, or gone with the call that was to make it. -/
structure Attended (w : Broadcast) : Prop where
  covered : w.engine.Covered w.forgone
  manned : w.engine.Manned
  announced : w.engine.client.announced = ↑(w.deliveries.filter Delivery.isWatched)
  vouched : ∀ d ∈ w.deliveries, d.VouchedBy w.notices
  agendas : ∀ x ∈ w.engine.tasks, ∀ d ∈ x.2.agenda, d.VouchedBy w.notices

theorem Attended.deliveries_after (h : w.Attended) (ho : w.engine.client.closed = false)
    (ha : act a w.engine = some t) :
    (w.after a t).deliveries = w.deliveries ++ (w.engine.handover a t).map Prod.snd := by
  have hstep := Engine.advance_act h.covered.orderly ho h.manned ha
  simp only [deliveries, after, ho, Bool.false_eq_true, if_false, List.map_append, List.append_assoc]
  rw [hstep.order]

theorem Attended.act (h : w.Attended) (ho : w.engine.client.closed = false)
    (ha : act a w.engine = some t) : (w.after a t).Attended := by
  have hdeliveries := h.deliveries_after ho ha
  obtain ⟨hannounced, hagenda⟩ := Engine.announced_act h.covered.orderly ho h.manned ha
  refine ⟨Engine.covered_act h.covered ho ha, Engine.manned_act h.covered.orderly ho h.manned ha,
    ?_, ?_, Engine.vouched_act h.covered.orderly ho ha h.agendas⟩
  · rw [hdeliveries, List.filter_append, ← Multiset.coe_add, ← h.announced, add_comm]
    exact hannounced
  · intro d hd
    rw [hdeliveries, List.mem_append] at hd
    rcases hd with hd | hd
    · exact (h.vouched d hd).append _
    · obtain ⟨⟨p, d⟩, hx, rfl⟩ := List.mem_map.mp hd
      rcases Engine.exists_task_of_agenda (hagenda _ hx) with ⟨o, ho, hd⟩ | ⟨f, e, rfl⟩
      · exact (h.agendas (p, o) ho d hd).append _
      · rintro ev ⟨⟩

/-- Of each entry as many confirmations were carried out, are under way or were given up as removals
took it out. -/
theorem Attended.count_confirmed (h : w.Attended) (e : Entry) :
    (w.carried.map Prod.snd).count (.removed e .syncConnected) +
        w.engine.client.deliveries.items.count (.removed e .syncConnected) +
        (w.engine.pending + w.forgone).count (.removed e .syncConnected) =
      (takings w.engine.client.journal).count ⟨.removed, e⟩ := by
  have hwatched : (Delivery.removed e .syncConnected).isWatched = true := rfl
  have htaken : w.engine.client.consumed.count ⟨.removed, e⟩ =
      (takings w.engine.client.journal).count ⟨.removed, e⟩ :=
    Multiset.coe_count _ _
  have hcount := congrArg (Multiset.count (.removed e .syncConnected)) h.covered.balanced.deliveries
  rw [Consumption.count_announcements h.covered.balanced.due, htaken, Multiset.count_add, h.announced,
    Multiset.coe_count, List.count_filter hwatched, deliveries, List.count_append] at hcount
  exact hcount.symm

/-- What was carried out was queued before, and the user code was called for nothing else. -/
structure Faithful (w : Broadcast) : Prop where
  orderly : w.engine.Orderly
  grounded : w.engine.Grounded
  calls : invocations w.engine.client.journal = w.carried.flatMap fun x => x.2.calls x.1
  vouched : ∀ x ∈ w.carried, x.2.VouchedBy w.notices
  announces : ∀ x ∈ w.carried, Announces w.engine.client.journal x.2
  bounded : ∀ e, (w.carried.map Prod.snd).count (.removed e .syncConnected) ≤
    (takings w.engine.client.journal).count ⟨.removed, e⟩
  attended : w.engine.client.closed = false → w.Attended

theorem faithful_opening {settings : Settings} {feed : Option Nat} {s : Engine}
    (hb : Engine.build settings feed = .built s) : (opening s).Faithful := by
  have hcovered := Engine.covered_zero.mpr (Engine.accounted_initial hb)
  have hintact := Carriage.intact_opening hb
  have hreachable : Engine.Reachable settings feed s := .built hb
  have hitems : s.client.deliveries.items = [] := hintact.order.symm
  have hannounced : s.client.announced = 0 := by
    obtain ⟨d, r, _, _, rfl⟩ := Engine.build_eq hb
    change ((tellings (if _ then _ else _) : List Delivery) : Multiset Delivery) = 0
    split <;> rfl
  have htasks : s.tasks = 0 := by
    obtain ⟨d, r, _, _, rfl⟩ := Engine.build_eq hb
    cases feed <;> rfl
  have hnone : ∀ x, x ∉ (opening s).carried := fun x => List.not_mem_nil
  refine ⟨hcovered.orderly, hreachable.grounded, hintact.calls, fun x hx => absurd hx (hnone x),
    fun x hx => absurd hx (hnone x), fun e => Nat.zero_le _,
    fun _ => ⟨hcovered, hintact.manned, ?_, ?_, ?_⟩⟩
  · change s.client.announced = ↑((s.client.deliveries.items).filter Delivery.isWatched)
    rw [hannounced, hitems]
    rfl
  · change ∀ d ∈ s.client.deliveries.items, _
    rw [hitems]
    exact fun d hd => absurd hd List.not_mem_nil
  · change ∀ x ∈ s.tasks, _
    rw [htasks]
    exact fun x hx => absurd hx (Multiset.notMem_zero x)

theorem announces_of_taken (h : w.engine.Grounded) {x : List String × Delivery}
    (hx : x ∈ w.engine.taken a) : Announces w.engine.client.journal x.2 := by
  cases a with
  | dispatch conduct =>
    obtain ⟨d, hd, rfl⟩ := List.mem_map.mp hx
    exact h.client.journal.announced (.inl (h.client.items d (List.mem_of_mem_take hd)))
  | _ => cases hx

theorem Faithful.act (h : w.Faithful) (ha : act a w.engine = some t) : (w.after a t).Faithful := by
  have horderly := Engine.orderly_act h.orderly ha
  have hgrounded := Engine.grounded_act h.orderly h.grounded ha
  obtain ⟨os, hj⟩ := (Engine.touched_act ha).journal
  have hannounces : ∀ {d}, Announces w.engine.client.journal d → Announces t.client.journal d :=
    fun hd => hj ▸ hd.append os
  cases ho : w.engine.client.closed with
  | false =>
    have hatt := h.attended ho
    -- What this step carries out counts, also if the client is closed by it.
    have hnext := hatt.act ho ha
    have hcarried : (w.after a t).carried = w.carried ++ w.engine.taken a := by simp [after, ho]
    have hcalls := (Engine.advance_act h.orderly ho hatt.manned ha).calls
    refine ⟨horderly, hgrounded, ?_, fun x hx => ?_, fun x hx => ?_, fun e => ?_, fun _ => hnext⟩
    · rw [hcarried, List.flatMap_append, ← h.calls]
      exact hcalls
    · exact hnext.vouched x.2 (List.mem_append_left _ (List.mem_map_of_mem hx))
    · rw [hcarried, List.mem_append] at hx
      exact hannounces (hx.elim (h.announces x) (announces_of_taken h.grounded))
    · have hcount := hnext.count_confirmed e
      omega
  | true =>
    -- Nothing more is carried out, and what was taken out stays on record.
    have hstays := Engine.staysClosed_act h.orderly ho ha
    have hcarried : (w.after a t).carried = w.carried := by simp [after, ho]
    refine ⟨horderly, hgrounded, ?_, fun x hx => ?_, fun x hx => ?_, fun e => ?_, fun hopen => ?_⟩
    · rw [hcarried, ← h.calls]
      exact hstays.silent
    · exact (h.vouched x (hcarried ▸ hx)).append _
    · exact hannounces (h.announces x (hcarried ▸ hx))
    · rw [hcarried]
      refine (h.bounded e).trans ?_
      change _ ≤ (takings t.client.journal).count _
      rw [hj, takings_append, List.count_append]
      exact Nat.le_add_left _ _
    · exact absurd (hstays.closed.symm.trans hopen) nofun

theorem Faithful.run (h : w.Faithful) (hs : Relation.ReflTransGen Step w w') : w'.Faithful := by
  induction hs with
  | refl => exact h
  | tail _ hstep ih =>
    obtain ⟨a, t, ha⟩ := hstep
    exact ih.act ha

/-- Every run of the client is the run of a broadcast. -/
theorem exists_run {settings : Settings} {feed : Option Nat} (h : Engine.Reachable settings feed t) :
    ∃ s w, Engine.build settings feed = .built s ∧ Relation.ReflTransGen Step (opening s) w ∧
      w.engine = t := by
  induction h with
  | @built s hb => exact ⟨s, opening s, hb, .refl, rfl⟩
  | step a _ ha ih =>
    obtain ⟨s, w, hb, hrun, rfl⟩ := ih
    exact ⟨s, w.after a _, hb, hrun.tail (.acted a _ ha), rfl⟩

theorem Faithful.backed_or_noticed (h : w.Faithful) {x : Call}
    (hx : .called x ∈ w.engine.client.journal) (hc : x.confirms = true) :
    w.engine.Backs x ∨ ∃ l, ∃ ev ∈ w.notices, x = .listener l (.watched ev none) := by
  rw [← mem_invocations, h.calls] at hx
  obtain ⟨y, hy, hx⟩ := List.mem_flatMap.mp hx
  rcases confirms_of_calls hx hc with ⟨k, ev, l, hd, _⟩ | ⟨ev, l, hd, hev, _, rfl⟩
  · obtain ⟨z, hz, hannounced⟩ := h.announces y hy (by rw [hd]; rfl)
    have hdue := (h.grounded.client.journal.of_taken hz).2
    rw [← hannounced] at hx
    obtain ⟨hcause, hdefault, l, _, rfl⟩ := z.confirms_announcement hdue hx hc
    obtain ⟨cause, e⟩ := z
    obtain rfl : cause = .removed := hcause
    exact .inl ⟨l, e, rfl, hdefault, hz⟩
  · exact .inr ⟨l, ev, h.vouched y hy ev hd hev, rfl⟩

theorem count_calls (d : Delivery) (ls : List String) (l : String) {e : Entry}
    (he : e.subscriber = .default) :
    (d.calls ls).count (confirmation l e) =
      if d = .removed e .syncConnected then ls.count l else 0 := by
  split
  · rename_i hd
    have hcalls : d.calls ls = ls.map (confirmation · e) := by
      rw [hd, Delivery.removed, he]
      rfl
    have hinj : Function.Injective (confirmation · e) := fun _ _ hl => (Call.listener.inj hl).1
    rw [hcalls]
    exact List.count_map_of_injective ls _ hinj l
  · rename_i hd
    refine List.count_eq_zero.mpr fun hx => hd ?_
    have hc : (confirmation l e).confirms = true := by
      change ((Selector.only e.kind).announced.isRemoval && _) = true
      rw [(Engine.announced_of_kind e.kind).1]
      rfl
    rcases confirms_of_calls hx hc with ⟨k, ev, l', hd', _, _, hl⟩ | ⟨ev, l', _, _, _, hl⟩
    · obtain ⟨rfl, hk⟩ := ClientEvent.watched.inj (Call.listener.inj hl).2
      obtain rfl := Option.some.inj hk
      rw [hd', Delivery.removed, he]
    · exact absurd hl (confirmation_ne l l' e ev)

theorem count_confirmation_le {xs : List (List String × Delivery)} {l : String} {e : Entry}
    (he : e.subscriber = .default) (hl : ∀ x ∈ xs, x.1.count l ≤ 1) :
    (xs.flatMap fun x => x.2.calls x.1).count (confirmation l e) ≤
      (xs.map Prod.snd).count (.removed e .syncConnected) := by
  induction xs with
  | nil => exact Nat.zero_le _
  | cons x xs ih =>
    have hrest := ih fun y hy => hl y (.tail _ hy)
    have hx := hl x (.head _)
    rw [List.flatMap_cons, List.count_append, List.map_cons, List.count_cons, count_calls _ _ _ he]
    by_cases hd : x.2 = .removed e .syncConnected
    · simp only [hd, if_true, beq_self_eq_true]
      omega
    · simp only [hd, if_false, beq_iff_eq]
      omega

/-- What the listeners are told of removals, whatever is done and notified of. All of it is for entries
of theirs that removals took out, exactly if no notification without a path that looks the same
reached them; nothing else looks the same. A listener that was added once is told of an entry at most as
often as removals took it out, and while the client is open every confirmation is accounted for. -/
theorem confirmations_accounted {settings : Settings} {feed : Option Nat} {s : Engine} {w : Broadcast}
    (hb : Engine.build settings feed = .built s)
    (h : Relation.ReflTransGen Step (opening s) w) :
    (w.engine.Genuine ↔ ∀ ev ∈ w.notices, ev.confirmsRemoval = true →
      ∀ l, .called (.listener l (.watched ev none)) ∉ w.engine.client.journal) ∧
    (∀ x, .called x ∈ w.engine.client.journal → x.confirms = true →
      w.engine.Backs x ∨ ∃ l, ∃ ev ∈ w.notices, x = .listener l (.watched ev none)) ∧
    (∀ y ∈ takings w.engine.client.journal, y.cause ≠ .removed →
      ∀ ls, ∀ x ∈ y.announcement.calls ls, x.confirms = false) ∧
    (∀ l e, e.subscriber = .default → (∀ x ∈ w.carried, x.1.count l ≤ 1) →
      (invocations w.engine.client.journal).count (confirmation l e) ≤
        (takings w.engine.client.journal).count ⟨.removed, e⟩) ∧
    invocations w.engine.client.journal = (w.carried.flatMap fun x => x.2.calls x.1) ∧
    Delivery.CarriedOut w.carried (invocations w.engine.client.journal) ∧
    (w.engine.client.closed = false → ∀ e,
      (w.carried.map Prod.snd).count (.removed e .syncConnected) +
          w.engine.client.deliveries.items.count (.removed e .syncConnected) +
          (w.engine.pending + w.forgone).count (.removed e .syncConnected) =
        (takings w.engine.client.journal).count ⟨.removed, e⟩) := by
  have hw := (faithful_opening hb).run h
  refine ⟨⟨fun hg ev hev hc l hx => ?_, fun hn x hx hc => ?_⟩, fun x => hw.backed_or_noticed,
    fun y hy hcause ls x hx => ?_, fun l e he hl => ?_, hw.calls,
    hw.calls ▸ Delivery.carriedOut_calls _, fun ho => (hw.attended ho).count_confirmed⟩
  · obtain ⟨l', e, he, _⟩ := hg _ hx hc
    exact confirmation_ne l' l e ev he.symm
  · refine (hw.backed_or_noticed hx hc).resolve_right ?_
    rintro ⟨l, ev, hev, rfl⟩
    exact hn ev hev hc l hx
  · have hdue := (hw.grounded.client.journal.of_taken hy).2
    cases hc : x.confirms with
    | false => rfl
    | true => exact absurd (y.confirms_announcement hdue hx hc).1 hcause
  · rw [hw.calls]
    exact (count_confirmation_le he hl).trans (hw.bounded e)

/-- A notification with a path that says that a watch was removed reaches nobody; the removal that then
takes out the watch is confirmed to the listener. -/
theorem removal_confirmed_to_listener :
    ∃ w s, Engine.build {} none = .built s ∧ Relation.ReflTransGen Step (opening s) w ∧
      w.engine.Genuine ∧
      invocations w.engine.client.journal = [confirmation "l" ⟨"/a", .data, .default⟩] ∧
      ⟨.removed, ⟨"/a", .data, .default⟩⟩ ∈ takings w.engine.client.journal := by
  have hrun : (Engine.follow [.perform (.addListener "l"),
      .begin (.arm ⟨.presence, "/a", .default⟩), .answer (.caller 0) 0 (.ok (.presence true)),
      .begin (.notify ⟨.dataWatchRemoved, .syncConnected, some "/a"⟩),
      .begin (.remove ⟨"/a", .only .data, .all, true, false⟩), .resume (.caller 2),
      .dispatch fun _ _ => {}] Engine.fresh).any (fun t =>
      decide (invocations t.client.journal = [confirmation "l" ⟨"/a", .data, .default⟩])) = true := by
    decide +kernel
  obtain ⟨t, ht, hcalls⟩ := (Option.any_eq_true _ _).mp hrun
  have hcalls := of_decide_eq_true hcalls
  obtain ⟨s, w, hs, hw, rfl⟩ := exists_run (Engine.reachable_of_fresh ht)
  obtain ⟨hgenuine, hbacked, _⟩ := confirmations_accounted hs hw
  have honly : ∀ l ev, .called (.listener l (.watched ev none)) ∉ w.engine.client.journal := by
    intro l ev hx
    rw [← mem_invocations, hcalls, List.mem_singleton] at hx
    exact confirmation_ne "l" l _ ev hx.symm
  have hcalled : .called (confirmation "l" ⟨"/a", .data, .default⟩) ∈ w.engine.client.journal := by
    rw [← mem_invocations, hcalls]
    exact .head _
  obtain ⟨l, e, he, hdefault, htaken⟩ := (hbacked _ hcalled rfl).resolve_right
    fun ⟨_, _, _, he⟩ => confirmation_ne _ _ _ _ he
  obtain ⟨_, rfl⟩ := confirmation_inj hdefault.symm he
  exact ⟨w, s, hs, hw, hgenuine.mpr fun ev _ _ l => honly l ev, hcalls, htaken⟩

/-- A notification without a path is passed on to the listeners as it came, also if it says that a watch
was removed: then they are told of a removal although nothing was removed. -/
theorem unasked_removal_confirmed :
    ¬ ∀ (settings : Settings) (feed : Option Nat) (s : Engine),
      Engine.Reachable settings feed s → s.Genuine := by
  intro hall
  have hrun : (Engine.follow [.perform (.addListener "l"),
      .begin (.notify ⟨.dataWatchRemoved, .syncConnected, none⟩), .resume (.caller 0),
      .dispatch fun _ _ => {}] Engine.fresh).any (fun t =>
      decide (.called (.listener "l" (.watched ⟨.dataWatchRemoved, .syncConnected, none⟩ none)) ∈
        t.client.journal)) = true := by
    decide +kernel
  obtain ⟨t, ht, hcalled⟩ := (Option.any_eq_true _ _).mp hrun
  have hreachable := Engine.reachable_of_fresh ht
  obtain ⟨_, _, he, _⟩ := hall _ _ t hreachable _ (of_decide_eq_true hcalled) rfl
  exact confirmation_ne _ _ _ _ he.symm

end Broadcast

end NodeWatch
