import NodeWatch.Proofs.Chronicle
import NodeWatch.Proofs.TaskTurnover

/-! What an action does to the deliveries. A party sends what is next on its agenda, the dispatch
worker carries out the delivery at the head of the queue, or neither; and the agendas of the other
parties stay as they are. -/

namespace NodeWatch

namespace Client

variable {c c₁ c' : Client} {xs ys : List Call}

/-- User code was called in this order, and whatever it did nothing was put on the queue or taken off
it. -/
structure Runs (c c' : Client) (xs : List Call) : Prop where
  deliveries : c'.deliveries = c.deliveries
  journal : ∃ os, c'.journal = os ++ c.journal ∧ invocations os = xs ∧ sendings os = []

namespace Runs

theorem of_eq (hd : c'.deliveries = c.deliveries) (hj : c'.journal = c.journal) : c.Runs c' [] :=
  ⟨hd, [], hj, rfl, rfl⟩

theorem trans (h : c.Runs c₁ xs) (h' : c₁.Runs c' ys) : c.Runs c' (xs ++ ys) := by
  obtain ⟨os, hj, rfl, hs⟩ := h.journal
  obtain ⟨os', hj', rfl, hs'⟩ := h'.journal
  refine ⟨h'.deliveries.trans h.deliveries, os' ++ os, ?_, invocations_append os' os, ?_⟩
  · rw [hj', hj, List.append_assoc]
  · rw [sendings_append, hs, hs', List.append_nil]

theorem apply (c : Client) (d : Deed) : c.Runs (c.apply d) [] := by
  cases d <;> exact of_eq rfl rfl

theorem deeds (ds : List Deed) (c : Client) : c.Runs (ds.foldl Client.apply c) [] :=
  List.foldlRecOn (motive := fun c' : Client => c.Runs c' []) ds Client.apply (of_eq rfl rfl)
    fun c' h d _ => h.trans (apply c' d)

theorem call (conduct : Client → Call → Conduct) (c : Client) (x : Call) :
    c.Runs (c.call conduct x) [x] := by
  have hcalled : c.Runs (c.note (.called x)) [x] := ⟨rfl, [.called x], rfl, rfl, rfl⟩
  have hdone := hcalled.trans (deeds (conduct (c.note (.called x)) x).deeds (c.note (.called x)))
  unfold Client.call
  dsimp only
  split
  · rename_i r _
    exact hdone.trans ⟨rfl, [.remarked r], rfl, rfl, rfl⟩
  · exact hdone

theorem calls (conduct : Client → Call → Conduct) (xs : List Call) (c : Client) :
    c.Runs (xs.foldl (Client.call conduct) c) xs := by
  induction xs generalizing c with
  | nil => exact of_eq rfl rfl
  | cons x xs ih => exact (call conduct c x).trans (ih _)

/-- No failure of one call keeps the others from being made, or changes their order. -/
theorem deliver (conduct : Client → Call → Conduct) (c : Client) (d : Delivery) :
    c.Runs (c.deliver conduct d) (d.calls c.listeners) :=
  calls conduct _ c

end Runs

end Client

open Client (Idles Runs Mails queuings)

namespace Worker

def agenda : Worker → List Delivery
  | removing _ st _ => st.agenda
  | reporting f e _ => [.completion f e]
  | idle | received _ | stopped => []

end Worker

namespace Engine

variable {a : Action} {s t : Engine}

/-- The deliveries that a party has to send next, in this order. -/
def agenda (s : Engine) : Party → List Delivery
  | .caller id => ((s.call? id).map Operation.agenda).getD []
  | .remover => s.worker.agenda
  | .listener => (s.listener.task?.map Operation.agenda).getD []

theorem agenda_of_task {p : Party} {o : Operation} (h : s.task? p = some o) :
    s.agenda p = o.agenda := by
  cases p with
  | caller id => simp only [agenda, show s.call? id = some o from h, Option.map_some, Option.getD_some]
  | remover =>
    cases hw : s.worker with
    | removing b st awake =>
      obtain rfl : Operation.removal b.request st = o := by simpa [task?, hw, Worker.task?] using h
      simp only [agenda, hw]
      rfl
    | idle | received | reporting | stopped => simp [task?, hw, Worker.task?] at h
  | listener =>
    simp only [agenda, show s.listener.task? = some o from h, Option.map_some, Option.getD_some]

theorem agenda_of_none {p : Party} (h : s.task? p = none) (hp : p ≠ .remover) :
    s.agenda p = [] := by
  cases p with
  | caller id => simp only [agenda, show s.call? id = none from h, Option.map_none, Option.getD_none]
  | remover => exact absurd rfl hp
  | listener =>
    simp only [agenda, show s.listener.task? = none from h, Option.map_none, Option.getD_none]

theorem agenda_of_task? {p : Party} (h : t.task? p = s.task? p)
    (hw : t.worker.agenda = s.worker.agenda) : t.agenda p = s.agenda p := by
  cases p with
  | caller id => simp only [agenda, show t.call? id = s.call? id from h]
  | remover => exact hw
  | listener => simp only [agenda, show t.listener.task? = s.listener.task? from h]

theorem agenda_congr (hc : t.calls = s.calls) (hw : t.worker.agenda = s.worker.agenda)
    (hl : t.listener.task? = s.listener.task?) (p : Party) : t.agenda p = s.agenda p := by
  cases p with
  | caller id => simp only [agenda, call?, hc]
  | remover => exact hw
  | listener => simp only [agenda, hl]

theorem agenda_of_finished {o : Operation} (h : o.Finished) : o.agenda = [] := by
  cases o with
  | arming | enrolment => rfl
  | removal r st => cases st with
    | done => rfl
    | asking | confirming | checking | rearming => cases h
  | notification st => cases st with
    | done => rfl
    | telling => cases h
  | session st => cases st with
    | done => rfl
    | expiring | expired | resubmitting | dropping | reporting => cases h

/-- What a party has to send next is on the agenda of its operation, or tells a callback. -/
theorem exists_task_of_agenda {p : Party} {d : Delivery} (h : d ∈ s.agenda p) :
    (∃ o, (p, o) ∈ s.tasks ∧ d ∈ o.agenda) ∨ ∃ f e, d = .completion f e := by
  cases htask : s.task? p with
  | some o =>
    rw [agenda_of_task htask] at h
    exact .inl ⟨o, mem_of_task? htask, h⟩
  | none =>
    by_cases hp : p = .remover
    · subst hp
      rw [agenda] at h
      cases hw : s.worker with
      | removing b st awake => simp [task?, hw, Worker.task?] at htask
      | reporting f e awake =>
        rw [hw] at h
        exact .inr ⟨f, e, List.mem_singleton.mp h⟩
      | idle | received | stopped =>
        rw [hw] at h
        cases h
    · rw [agenda_of_none htask hp] at h
      cases h

/-- How an action bears on the deliveries. -/
inductive Traffic (s : Engine) (a : Action) (t : Engine) : Prop
  | idled (connected : Bool) (idles : s.client.Idles t.client connected)
    (agendas : ∀ p, t.agenda p = s.agenda p ∨ s.agenda p = [])
  | sent (p : Party) (d : Delivery) (ds : List Delivery) (party : a.party? s = some p)
    (due : s.agenda p = d :: ds) (client : t.client = (s.client.send p d).2)
    (next : t.agenda p = if (s.client.send p d).1 then ds else d :: ds)
    (others : ∀ q, q ≠ p → t.agenda q = s.agenda q)
  | carried (conduct : Client → Call → Conduct) (d : Delivery) (q : Queue Delivery)
    (action : a = .dispatch conduct) (take : s.client.deliveries.take? = some (d, q))
    (client : t.client = { s.client with deliveries := q }.deliver conduct d)
    (kept : ∀ p, t.agenda p = s.agenda p)
  | silenced (conduct : Client → Call → Conduct) (action : a = .dispatch conduct)
    (silent : s.silent = true)
    (after : t = s.stopDispatching (s.client.remark .deliveryQueueClosed))
  | withdrew (p : Party) (due : s.agenda p = [] ∨ ∃ id, p = .caller id ∧ a = .abandon id)
    (closed : t.client.closed = s.client.closed) (journal : t.client.journal = s.client.journal)
    (deliveries : t.client.deliveries = s.client.deliveries.withdraw p) (gone : t.agenda p = [])
    (others : ∀ q, q ≠ p → t.agenda q = s.agenda q)
  | performed (d : Deed) (action : a = .perform d) (client : t.client = s.client.apply d)
    (kept : ∀ p, t.agenda p = s.agenda p)

theorem Traffic.beside {connected : Bool} (h : s.client.Idles t.client connected)
    (hk : ∀ p, t.agenda p = s.agenda p) : Traffic s a t :=
  .idled connected h fun p => .inl (hk p)

theorem Traffic.of_mails {p : Party} {connected : Bool} (hp : a.party? s = some p)
    (h : Mails p s.client t.client connected (s.agenda p) (t.agenda p))
    (ho : ∀ q, q ≠ p → t.agenda q = s.agenda q) : Traffic s a t := by
  generalize hds : s.agenda p = ds at h
  generalize hds' : t.agenda p = ds' at h
  generalize hc : t.client = c at h
  cases h with
  | idled idles agenda =>
    refine .idled connected (hc ▸ idles) fun q => ?_
    by_cases hq : q = p
    · rw [hq, hds, hds']
      exact agenda
    · exact .inl (ho q hq)
  | sent d ds client agenda => exact .sent p d ds hp hds (hc.trans client) (hds'.trans agenda) ho

theorem traffic_put {p : Party} {m : Move} {o o' : Operation} {c : Client} (ha : a = actionOf p m)
    (ho : s.task? p = some o) (hm : o.move m p s.client = some (o', c)) :
    Traffic s a (s.put p o' c) := by
  obtain ⟨hafter, hothers⟩ := task?_put ho hm
  have hnext : (s.put p o' c).agenda p = o'.agenda := by
    rcases hafter with hafter | ⟨rfl, rfl, hafter⟩
    · exact agenda_of_task hafter
    · exact agenda_of_none hafter Party.noConfusion
  refine .of_mails (ha ▸ party?_actionOf s p m)
    (?_ : Mails p s.client _ (Operation.restores m o || s.client.connected) _ _) fun q hq => ?_
  · rw [agenda_of_task ho, hnext, client_put]
    exact Operation.mails_move hm
  · cases p with
    | caller id => exact agenda_of_task? (hothers q hq) rfl
    | listener => exact agenda_of_task? (hothers q hq) rfl
    | remover =>
      cases q with
      | caller id => rfl
      | remover => exact absurd rfl hq
      | listener => rfl

theorem traffic_of_change (hs : s.Orderly) (h : Change s a t) : Traffic s a t := by
  cases h with
  | begun o held =>
    refine .idled _ (Operation.idles_start o s.client) fun q => ?_
    by_cases hq : q = .caller s.nextCall
    · rw [hq]
      exact .inr (agenda_of_none (task?_fresh hs) Party.noConfusion)
    · exact .inl (agenda_of_task? ((task?_begun hs _ _ q).trans (if_neg hq)) rfl)
  | moved p m o o' c action task move => exact traffic_put action task move
  | concluded b r worker =>
    refine .idled s.client.connected ?_ fun q => ?_
    · cases hb : b.callback <;> cases r <;>
        simp [Worker.conclude, hb, Idles.refl, Idles.remark]
    · cases q with
      | caller | listener => exact .inl rfl
      | remover => exact .inr (by rw [agenda, worker]; rfl)
  | reported f e sent c worker send =>
    refine .sent .remover (.completion f e) [] rfl (by rw [agenda, worker]; rfl)
      (congrArg Prod.snd send).symm ?_ fun q hq => ?_
    · cases sent <;> simp [agenda, send, Worker.agenda]
    · cases q <;> first | rfl | exact absurd rfl hq
  | dispatched conduct d q dispatching take =>
    exact .carried conduct d q rfl take rfl (agenda_congr rfl rfl rfl)
  | silenced conduct silent => exact .silenced conduct rfl silent rfl
  | took b q worker take =>
    refine .beside (.of_eq rfl rfl rfl rfl) (agenda_congr rfl ?_ rfl)
    rw [worker]
    rfl
  | retired worker take orphaned =>
    refine .withdrew .remover (.inl (by rw [agenda, worker]; rfl)) rfl rfl rfl rfl fun q hq => ?_
    cases q <;> first | rfl | exact absurd rfl hq
  | undertook b worker opened =>
    refine .idled _ (Removal.idles_start b.request s.client) fun q => ?_
    cases q with
    | caller | listener => exact .inl rfl
    | remover => exact .inr (by rw [agenda, worker]; rfl)
  | stirred w action same =>
    refine .beside (.refl _) (agenda_congr rfl ?_ rfl)
    generalize s.worker = w' at same
    cases same <;> rfl
  | lagged listener => exact .beside (.remark _ _) (agenda_congr rfl rfl rfl)
  | heard e es listener unread opened =>
    refine .idled _ (Session.idles_start e s.client) fun q => ?_
    cases q with
    | caller | remover => exact .inl rfl
    | listener => exact .inr (by rw [agenda, listener]; rfl)
  | deafened listener =>
    refine .beside (.refl _) (agenda_congr rfl rfl ?_)
    rw [listener]
    rfl
  | fed | feedEnded | released => exact .beside (.refl _) (agenda_congr rfl rfl rfl)
  | performed d => exact .performed d rfl rfl (agenda_congr rfl rfl rfl)
  | abandoned id o task =>
    refine .withdrew (.caller id) (.inr ⟨id, rfl, rfl⟩) rfl rfl rfl ?_ fun q hq => ?_
    · exact agenda_of_none ((task?_dismissed s id _ _).trans (if_pos rfl)) Party.noConfusion
    · exact agenda_of_task? ((task?_dismissed s id _ q).trans (if_neg hq)) rfl
  | collected id o x task outcome =>
    have hfinished : o.Finished := by
      rw [Operation.Finished, outcome]
      rfl
    refine .idled _ (.refl _) fun q => ?_
    by_cases hq : q = .caller id
    · rw [hq, agenda_of_task (p := .caller id) task, agenda_of_finished hfinished]
      exact .inr rfl
    · exact .inl (agenda_of_task? ((task?_dismissed s id s.client q).trans (if_neg hq)) rfl)

/-- Whatever is done, what is new on the queue of deliveries is what was noted as queued. -/
theorem growth_act (hs : s.Orderly) (h : act a s = some t) :
    ∃ os, t.client.journal = os ++ s.client.journal ∧
      s.client.growth t.client = queuings os := by
  have hnothing : ∀ os : List Occurrence, t.client.journal = os ++ s.client.journal →
      t.client.deliveries.items.length ≤ s.client.deliveries.items.length → queuings os = [] →
      ∃ os, t.client.journal = os ++ s.client.journal ∧ s.client.growth t.client = queuings os :=
    fun os hj hshorter hsilent => ⟨os, hj, (List.drop_eq_nil_of_le hshorter).trans hsilent.symm⟩
  rcases act_change_or_shutdown h with hch | ⟨_, hsd⟩
  · cases traffic_of_change hs hch with
    | idled connected idles => exact idles.grows.growth
    | sent p d ds party due client => exact client ▸ (s.client.grows_send p d).growth
    | carried conduct d q action take client =>
      have hruns := Runs.deliver conduct { s.client with deliveries := q } d
      obtain ⟨os, hj, _, hsent⟩ := hruns.journal
      refine hnothing os (client ▸ hj) ?_ (Client.queuings_of_sendings hsent)
      rw [client, hruns.deliveries, Queue.items_take take]
      exact Nat.le_succ _
    | silenced conduct action silent after =>
      exact hnothing [.remarked .deliveryQueueClosed] (after ▸ rfl) (after ▸ Nat.zero_le _) rfl
    | withdrew p due closed journal deliveries =>
      refine hnothing [] journal ?_ rfl
      rw [deliveries, Queue.items_withdraw]
    | performed d action client =>
      have hruns := Runs.apply s.client d
      obtain ⟨os, hj, _, hsent⟩ := hruns.journal
      refine hnothing os (client ▸ hj) ?_ (Client.queuings_of_sendings hsent)
      rw [client, hruns.deliveries]
  · cases hsd with
    | dispatching => exact hnothing [] rfl (Nat.zero_le _) rfl
    | worker =>
      exact hnothing [] rfl (congrArg List.length (Queue.items_withdraw _ .remover)).le rfl
    | listener => exact hnothing [] rfl (Nat.le_refl _) rfl

end Engine

theorem tellings_reverse (os : List Occurrence) :
    (tellings os).reverse = (queuings os).filter Delivery.isWatched := by
  rw [tellings, ← List.filterMap_reverse, queuings, List.filter_filterMap]
  refine List.filterMap_congr fun o _ => ?_
  cases o with
  | queued d => cases hd : d.isWatched <;> simp [Occurrence.announced?, Option.filter, hd]
  | _ => rfl

namespace Chronicle

variable {w : Chronicle} {s : Engine}

/-- What an operation put on the queue for subscribers is what it noted so. -/
theorem tellings_run (hs : (opening s).Numbered)
    (h : Relation.ReflTransGen Step (opening s) w) (n : Nat) :
    w.tellings n = (NodeWatch.tellings (w.deeds n)).reverse := by
  have hposted : ∀ x ∈ w.pages, x.2.posted = queuings x.2.noted := by
    induction h with
    | refl => exact fun x hx => absurd hx List.not_mem_nil
    | tail hrun hstep ih =>
      obtain ⟨a, ha⟩ := hstep
      have hnumbered := (journal_run hs hrun).1
      obtain ⟨t, hact, hv⟩ := continued hnumbered ha
      obtain ⟨_, i, hpages⟩ := hv.turned
      rw [hpages]
      intro x hx
      rcases List.mem_cons.mp hx with rfl | hx
      · obtain ⟨os, hj, hgrowth⟩ := Engine.growth_act hnumbered.orderly hact
        obtain rfl := List.append_cancel_right (hj.symm.trans (noted_page hact))
        exact hgrowth
      · exact ih x hx
  have hown : ∀ pg ∈ (w.own n).reverse, pg.posted = queuings pg.noted := fun pg hpg => by
    obtain ⟨x, hx, rfl⟩ := List.mem_map.mp (List.mem_reverse.mp hpg)
    exact hposted x (List.mem_of_mem_filter hx)
  rw [tellings, deeds, tellings_reverse, List.flatMap_congr hown, queuings, List.reverse_flatMap,
    List.filterMap_flatMap]
  rfl

end Chronicle

end NodeWatch
