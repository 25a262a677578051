import NodeWatch.Proofs.DeliveryCarriage
import NodeWatch.Proofs.ConnectionFlag

/-! Whether the listeners are told the same of the connection as its flag says. Each tiding that bears
on the flag is reported to them, by the party whose tiding it is. Reports may have to wait for a place
on the queue, and meanwhile other tidings come; but if the queue serves them in the order in which they
were started, the last of them says what the flag says. -/

namespace NodeWatch

/-- What a party that handles session events makes known: a tiding, or a state of the connection that
it puts on the queue for the listeners. -/
inductive Signal where
  | tiding (x : Tiding)
  | queued (state : LinkState)
  deriving DecidableEq

/-- The state that a tiding is reported by. -/
def Tiding.state : Tiding → LinkState
  | begun .disconnected => .disconnected
  | begun .expired => .expired
  | begun .reconnected | restored => .syncConnected

namespace Session

/-- Everything that the handling of an event makes known, in order. -/
def episode : SessionEvent → List Signal
  | .disconnected => [.tiding (.begun .disconnected), .queued .disconnected]
  | .reconnected => [.tiding (.begun .reconnected), .queued .syncConnected]
  | .expired =>
    [.tiding (.begun .expired), .queued .expired, .tiding .restored, .queued .syncConnected]

/-- What is still to be made known. -/
def Stage.due : Stage → List Signal
  | .expiring => [.queued .expired, .tiding .restored, .queued .syncConnected]
  | .expired | .resubmitting _ | .dropping .. => [.tiding .restored, .queued .syncConnected]
  | .reporting state => [.queued state]
  | .done => []

theorem episode_eq (e : SessionEvent) (c : Client) :
    episode e = .tiding (.begun e) :: (start e c).1.due := by
  cases e <;> rfl

theorem due_recover (c : Client) : (recover c).1.due = [.tiding .restored, .queued .syncConnected] := by
  unfold recover
  dsimp only
  split <;> rfl

variable {st : Stage} {ys : List Signal}

theorem ne_begun_of_due {x : Signal} (h : x ∈ st.due) (e : SessionEvent) : x ≠ .tiding (.begun e) := by
  rintro rfl
  cases st <;> simp [Stage.due] at h

/-- A tiding is followed at once by the report of it. -/
theorem due_after_tiding {x : Tiding} (h : st.due = .tiding x :: ys) :
    ys.head? = some (.queued x.state) := by
  cases st with
  | expiring | reporting | done => cases h
  | expired | resubmitting | dropping =>
    cases h
    rfl

theorem due_after_report {state state' : LinkState} (h : st.due = .queued state :: ys) :
    ys.head? ≠ some (.queued state') := by
  cases st with
  | expired | resubmitting | dropping | done => cases h
  | expiring | reporting =>
    cases h
    simp

end Session

def Operation.due : Operation → List Signal
  | session st => st.due
  | arming .. | removal .. | enrolment .. | notification _ => []

/-- Of what a party has to make known it makes known the next thing, or nothing. -/
inductive Speaks (p : Party) : List Signal → List Signal → List (Party × Signal) → Prop
  | silent (ys : List Signal) : Speaks p ys ys []
  | spoke (x : Signal) (ys : List Signal) : Speaks p (x :: ys) ys [(p, x)]

namespace Engine

variable {a : Action} {s t : Engine} {p : Party}

/-- What a party has still to make known. -/
def due (s : Engine) (p : Party) : List Signal :=
  ((s.task? p).map Operation.due).getD []

/-- A state that the handling of a session event put on the queue. -/
def report? (s : Engine) (x : Party × Delivery) : Option (Party × Signal) :=
  match s.task? x.1, x.2 with
  | some (.session _), .state ev => some (x.1, .queued ev.state)
  | _, _ => none

/-- What an action makes known, and whose doing it is. -/
def signals (s : Engine) (a : Action) (t : Engine) : List (Party × Signal) :=
  ((a.party? s).toList.flatMap fun p => (a.tiding? s).toList.map fun x => (p, .tiding x)) ++
    (s.handover a t).filterMap s.report?

theorem due_congr (h : t.task? p = s.task? p) : t.due p = s.due p := by
  rw [due, due, h]

theorem due_of_task {o : Operation} (h : s.task? p = some o) : s.due p = o.due := by
  rw [due, h]
  rfl

theorem due_of_none (h : s.task? p = none) : s.due p = [] := by
  rw [due, h]
  rfl

theorem due_of_finished {o : Operation} (h : o.Finished) : o.due = [] := by
  cases o with
  | arming | removal | enrolment | notification => rfl
  | session st =>
    rw [done_of_finished h]
    rfl

/-- Only the handling of a session event makes anything known. -/
theorem report?_of_other {x : Party × Delivery} (h : ∀ st, s.task? x.1 ≠ some (.session st)) :
    s.report? x = none := by
  unfold report?
  split
  · exact absurd ‹_› (h _)
  · rfl

theorem filterMap_report?_handover
    (h : ∀ p, a.party? s = some p → ∀ st, s.task? p ≠ some (.session st)) :
    (s.handover a t).filterMap s.report? = [] := by
  rw [List.filterMap_eq_nil_iff]
  intro x hx
  obtain ⟨p, hp, hx⟩ := List.mem_flatMap.mp hx
  obtain ⟨d, _, rfl⟩ := List.mem_map.mp hx
  exact report?_of_other (h p (Option.mem_toList.mp hp))

theorem signals_of_other (hp : ∀ p, a.party? s = some p → ∀ st, s.task? p ≠ some (.session st))
    (ht : a.tiding? s = none) : s.signals a t = [] := by
  simp [signals, ht, filterMap_report?_handover hp]

/-- The handling of an event goes on by itself. -/
theorem speaks_resume {st st' : Session.Stage} {c : Client}
    (ho : s.task? p = some (.session st)) (hopen : st.agenda ≠ [] → s.client.deliveries.isOpen = true)
    (hm : Session.resume p st s.client = some (st', c)) (hc : t.client = c) :
    Speaks p st.due st'.due (s.signals (.resume p) t) := by
  have htiding : Action.tiding? s (.resume p) =
      if Session.restores st then some .restored else none := by
    simp only [Action.tiding?, ho]
  have hreport : ∀ state, s.report? (p, .state (.linkChange state)) = some (p, .queued state) := by
    intro state
    simp only [report?, ho]
    rfl
  have hother : ∀ e, s.report? (p, .removed e .expired) = none := by
    intro e
    simp only [report?, ho]
    rfl
  unfold signals
  rw [htiding]
  cases Session.resumed hm with
  | expiring =>
    rw [handover_send rfl (hopen (by simp [Session.Stage.agenda])) hc]
    split
    · rw [List.filterMap_cons_some (hreport _)]
      exact .spoke _ _
    · exact .silent _
  | expired =>
    rw [handover_of_idles (hc ▸ Session.idles_recover s.client), Session.due_recover]
    exact .silent _
  | started before after task =>
    rw [handover_of_idles (hc ▸ Client.Idles.submit s.client _)]
    exact .silent _
  | gathered | kept =>
    rw [handover_eq_nil (by rw [hc])]
    exact .silent _
  | telling rs e es =>
    rw [handover_send rfl (hopen (by simp [Session.Stage.agenda])) hc]
    split
    · rw [List.filterMap_cons_none (hother e)]
      exact .silent _
    · exact .silent _
  | dropped x f rs =>
    rw [handover_eq_nil (by rw [hc]; rfl)]
    exact .silent _
  | restored =>
    rw [handover_eq_nil (by rw [hc])]
    exact .spoke _ _
  | reporting state =>
    rw [handover_send rfl (hopen (by simp [Session.Stage.agenda])) hc]
    split
    · rw [List.filterMap_cons_some (hreport _)]
      exact .spoke _ _
    · exact .silent _

/-- A move that is not the handling's own leaves everything for later. -/
theorem silent_of_recovering {ts ts' : List Session.Task} {m : Move} {c : Client}
    (ho : s.task? p = some (.session (.resubmitting ts))) (hn : m ≠ .resume)
    (hm : (Operation.session (.resubmitting ts)).move m p s.client =
      some (.session (.resubmitting ts'), c)) (hc : t.client = c) :
    s.signals (actionOf p m) t = [] := by
  have htiding : (actionOf p m).tiding? s = none := by
    rw [tiding?_actionOf ho]
    cases m <;> simp_all [Operation.restores]
  have hnone : s.handover (actionOf p m) t = [] := by
    have hmails := Operation.mails_move hm
    generalize hds : Operation.agenda (.session (.resubmitting ts)) = ds at hmails
    generalize (Operation.restores m _ || s.client.connected) = x at hmails
    cases hmails with
    | idled idles => exact handover_of_idles (hc ▸ idles)
    | sent d ds client => cases hds
  simp [signals, htiding, hnone]

theorem speaks_move {st : Session.Stage} {o' : Operation} {m : Move} {c : Client}
    (ho : s.task? p = some (.session st)) (hopen : st.agenda ≠ [] → s.client.deliveries.isOpen = true)
    (hm : (Operation.session st).move m p s.client = some (o', c)) (hc : t.client = c) :
    Speaks p st.due o'.due (s.signals (actionOf p m) t) := by
  have hm' := hm
  cases Operation.moves hm with
  | handling st st' c' resume => exact speaks_resume ho hopen resume hc
  | answered slot x st st' c' answer =>
    obtain ⟨ts, task, b, rfl, _, _, rfl⟩ := Session.update_eq_some answer
    rw [silent_of_recovering ho (by simp) hm' hc]
    exact .silent _
  | timedOut slot st st' c' timeOut =>
    obtain ⟨ts, task, b, rfl, _, _, rfl⟩ := Session.update_eq_some timeOut
    rw [silent_of_recovering ho (by simp) hm' hc]
    exact .silent _
  | retried slot st st' c' retry =>
    obtain ⟨ts, task, b, rfl, _, _, rfl⟩ := Session.update_eq_some retry
    rw [silent_of_recovering ho (by simp) hm' hc]
    exact .silent _

/-- How an action bears on what is to be made known: a session event begins to be handled, or one party
speaks or is silent, and the others have before them what they had. -/
inductive Heralds (s : Engine) (a : Action) (t : Engine) : Prop
  | begun (p : Party) (e : SessionEvent) (free : s.due p = [])
    (next : Session.episode e = .tiding (.begun e) :: t.due p)
    (signals : s.signals a t = [(p, .tiding (.begun e))])
    (others : ∀ q, q ≠ p → t.due q = s.due q)
  | went (p : Party) (speaks : Speaks p (s.due p) (t.due p) (s.signals a t))
    (others : ∀ q, q ≠ p → t.due q = s.due q)

theorem Heralds.of_silent (hn : s.signals a t = []) (hk : ∀ q, t.due q = s.due q) :
    Heralds s a t := by
  refine .went .remover ?_ fun q _ => hk q
  rw [hn, hk]
  exact .silent _

theorem due_of_other {o : Operation} (h : ∀ st, o ≠ .session st) : o.due = [] := by
  cases o with
  | session st => exact absurd rfl (h st)
  | arming | removal | enrolment | notification => rfl

theorem due_remover (s : Engine) : s.due .remover = [] := by
  cases hw : s.task? .remover with
  | none => exact due_of_none hw
  | some o =>
    obtain ⟨r, st, rfl⟩ := task?_remover hw
    exact due_of_task hw

theorem heralds_of_remover (hp : a.party? s = some .remover ∨ a.party? s = none)
    (ht : a.tiding? s = none) (hc : t.calls = s.calls)
    (hl : t.listener.task? = s.listener.task?) : Heralds s a t := by
  refine .of_silent (signals_of_other (fun p hp' st hst => ?_) ht) fun q => ?_
  · rcases hp with hp | hp
    · obtain rfl := Option.some.inj (hp.symm.trans hp')
      obtain ⟨r, st', he⟩ := task?_remover hst
      cases he
    · cases hp.symm.trans hp'
  · cases q with
    | caller id => exact due_congr (congrArg (List.lookup id) hc)
    | remover => rw [due_remover, due_remover]
    | listener => exact due_congr hl

theorem heralds_begin (hs : s.Orderly) (ho : s.client.closed = false) (o : Order)
    (ht : t.client = (Operation.start o s.client).2)
    (htask : ∀ q, t.task? q = if q = .caller s.nextCall then some (Operation.start o s.client).1
      else s.task? q) : Heralds s (.begin o) t := by
  have hfree : s.due (.caller s.nextCall) = [] := due_of_none (task?_fresh hs)
  have hafter := due_of_task ((htask (.caller s.nextCall)).trans (if_pos rfl))
  have hothers : ∀ q, q ≠ .caller s.nextCall → t.due q = s.due q := fun q hq =>
    due_congr ((htask q).trans (if_neg hq))
  have hnone : s.handover (.begin o) t = [] :=
    handover_of_idles (ht ▸ Operation.idles_start o s.client)
  by_cases he : ∃ e, o = .session e
  · obtain ⟨e, rfl⟩ := he
    refine .begun _ e hfree ?_ ?_ hothers
    · rw [hafter, Session.episode_eq e s.client]
      simp [Operation.start, Session.startOpen, ho, Prod.map, Operation.due]
    · simp [signals, hnone, Action.party?, Action.tiding?]
  · have hother : ∀ e, o ≠ .session e := fun e h => he ⟨e, h⟩
    refine .of_silent ?_ fun q => ?_
    · cases o <;> simp_all [signals, Action.tiding?]
    · by_cases hq : q = .caller s.nextCall
      · rw [hq, hfree, hafter]
        exact due_of_other (Operation.start_ne_session hother s.client)
      · exact hothers q hq

theorem heralds_listen (ho : s.client.closed = false) (h : act .listen s = some t) :
    Heralds s .listen t := by
  obtain ⟨hidle, hl⟩ := listen_cases ho h
  have hother : ∀ p, Action.party? s .listen = some p → ∀ st, s.task? p ≠ some (.session st) := by
    intro p hp st hst
    obtain rfl := Option.some.inj hp
    cases hidle.symm.trans hst
  have hothers : ∀ q, q ≠ .listener → t.due q = s.due q := by
    obtain ⟨x, _, rfl⟩ := Option.map_eq_some_iff.mp h
    intro q hq
    cases q with
    | caller | remover => exact due_congr rfl
    | listener => exact absurd rfl hq
  rcases hl with ⟨hnone, _, htask⟩ | ⟨e, hsome, _, htask⟩
  · refine .of_silent (signals_of_other hother hnone) fun q => ?_
    by_cases hq : q = .listener
    · rw [hq]
      exact due_congr (htask.trans hidle.symm)
    · exact hothers q hq
  · refine .begun .listener e (due_of_none hidle) ?_ ?_ hothers
    · rw [due_of_task (p := .listener) htask]
      exact Session.episode_eq e s.client
    · simp [signals, filterMap_report?_handover hother, hsome, Action.party?]

/-- A call that is let go of had nothing to make known any more. -/
theorem heralds_dismissed {id : Nat} {o : Operation} (hp : a.party? s = none)
    (ht : a.tiding? s = none) (ho : s.call? id = some o) (hd : o.due = [])
    (htask : ∀ q, t.task? q = if q = .caller id then none else s.task? q) : Heralds s a t := by
  refine .of_silent (signals_of_other (by simp [hp]) ht) fun q => ?_
  by_cases hq : q = .caller id
  · rw [due_of_none ((htask q).trans (if_pos hq)), hq, due_of_task (p := .caller id) ho, hd]
  · exact due_congr ((htask q).trans (if_neg hq))

theorem heralds_put {m : Move} {o o' : Operation} {c : Client} (hm : s.Manned)
    (ho : s.task? p = some o) (hmove : o.move m p s.client = some (o', c)) :
    Heralds s (actionOf p m) (s.put p o' c) := by
  obtain ⟨hafter, hothers⟩ := task?_put ho hmove
  have hnext : (s.put p o' c).due p = o'.due := by
    rcases hafter with hafter | ⟨_, rfl, hafter⟩
    · exact due_of_task hafter
    · exact due_of_none hafter
  by_cases hst : ∃ st, o = .session st
  · obtain ⟨st, rfl⟩ := hst
    refine .went p ?_ fun q hq => due_congr (hothers q hq)
    rw [due_of_task ho, hnext]
    refine speaks_move ho (fun hne => ?_) hmove (client_put s p o' c)
    exact (hm.tidy_of_due (p := p) (by rw [agenda_of_task ho]; exact hne)).2.isOpen
  · have hother : ∀ st, o ≠ .session st := fun st h => hst ⟨st, h⟩
    refine .of_silent (signals_of_other (fun q hq st hst' => ?_) ?_) fun q => ?_
    · obtain rfl := Option.some.inj ((party?_actionOf s p m).symm.trans hq)
      exact hother st (Option.some.inj (ho.symm.trans hst'))
    · rw [tiding?_actionOf ho]
      cases o <;> cases m <;> simp_all [Operation.restores]
    · by_cases hq : q = p
      · rw [hq, hnext, due_of_task ho, due_of_other hother,
          due_of_other (Operation.ne_session_of_move hmove hother)]
      · exact due_congr (hothers q hq)

theorem heralds_act (hs : s.Orderly) (ho : s.client.closed = false) (hm : s.Manned)
    (hkept : ∀ id st, a = .abandon id → s.call? id = some (.session st) → st = .done)
    (h : act a s = some t) : Heralds s a t := by
  cases act_change ho h with
  | begun o held => exact heralds_begin hs ho o rfl (task?_begun hs _ _)
  | moved p m o o' c action task move => exact action ▸ heralds_put hm task move
  | concluded b r worker => exact heralds_of_remover (.inl rfl) (by
      simp [Action.tiding?, task?, worker, Worker.task?]) rfl rfl
  | reported f e sent c worker => exact heralds_of_remover (.inl rfl) (by
      simp [Action.tiding?, task?, worker, Worker.task?]) rfl rfl
  | lagged | heard | deafened => exact heralds_listen ho h
  | took | retired | undertook => exact heralds_of_remover (.inl rfl) rfl rfl rfl
  | stirred w action =>
    rcases action with rfl | rfl
    · exact heralds_of_remover (.inl rfl) rfl rfl rfl
    · exact heralds_of_remover (.inr rfl) rfl rfl rfl
  | dispatched | silenced | fed | feedEnded | performed | released =>
    exact heralds_of_remover (.inr rfl) rfl rfl rfl
  | abandoned id o task =>
    refine heralds_dismissed rfl rfl task ?_ (task?_dismissed s id _)
    cases o with
    | session st =>
      rw [hkept id st rfl task]
      rfl
    | arming | removal | enrolment | notification => rfl
  | collected id o x task outcome =>
    refine heralds_dismissed rfl rfl task (due_of_finished ?_) (task?_dismissed s id s.client)
    rw [Operation.Finished, outcome]
    rfl

end Engine

namespace Signal

def tiding? : Signal → Option Tiding
  | tiding x => some x
  | queued _ => none

def state? : Signal → Option LinkState
  | queued state => some state
  | tiding _ => none

/-- The tidings among the signals. Of several signals the latest comes first, and so it does here. -/
def tidings (xs : List (Party × Signal)) : List Tiding :=
  xs.filterMap fun x => x.2.tiding?

/-- The states that were put on the queue, the latest first. -/
def reports (xs : List (Party × Signal)) : List LinkState :=
  xs.filterMap fun x => x.2.state?

/-- What one party made known, in order. -/
def ofParty (p : Party) (xs : List (Party × Signal)) : List Signal :=
  ((xs.filter fun x => x.1 = p).map Prod.snd).reverse

/-- The events whose handling was begun. -/
def events (ys : List Signal) : List SessionEvent :=
  ys.filterMap fun y => y.tiding?.bind Tiding.event?

/-- The parties that are sending a report, each with the state, in the order in which they started.
Between a tiding and the sending of the report of it a party does not pause. -/
def senders : List (Party × Signal) → List (Party × LinkState)
  | [] => []
  | (p, tiding x) :: xs => senders xs ++ [(p, x.state)]
  | (p, queued _) :: xs => (senders xs).filter fun y => y.1 ≠ p

variable {p q : Party} {x : Signal} {xs : List (Party × Signal)}

theorem ofParty_cons_self (p : Party) (x : Signal) (xs : List (Party × Signal)) :
    ofParty p ((p, x) :: xs) = ofParty p xs ++ [x] := by
  simp [ofParty]

theorem ofParty_cons_of_ne (h : q ≠ p) (x : Signal) (xs : List (Party × Signal)) :
    ofParty q ((p, x) :: xs) = ofParty q xs := by
  simp [ofParty, Ne.symm h]

end Signal

namespace Engine

variable {a : Action} {s t : Engine} {p : Party} {xs : List (Party × Signal)}

/-- A run of an open client on which no session event is given up half-way, with its signals. The queue
serves those who report a state in the order in which they started to send. -/
inductive Announced (s : Engine) : List (Party × Signal) → Engine → Prop
  | start : Announced s [] s
  | step {xs : List (Party × Signal)} {t u : Engine} (a : Action) (announced : Announced s xs t)
    (opened : t.client.closed = false)
    (kept : ∀ id st, a = .abandon id → t.call? id = some (.session st) → st = .done)
    (served : ∀ p state, (p, .queued state) ∈ t.signals a u →
      (Signal.senders xs).head?.map Prod.fst = some p)
    (act : act a t = some u) : Announced s (t.signals a u ++ xs) u

theorem exists_due (s : Engine) (p : Party) : ∃ st : Session.Stage, s.due p = st.due := by
  unfold due
  cases s.task? p with
  | none => exact ⟨.done, rfl⟩
  | some o => cases o with
    | session st => exact ⟨st, rfl⟩
    | arming | removal | enrolment | notification => exact ⟨.done, rfl⟩

theorem tidings_signals (s : Engine) (a : Action) (t : Engine) :
    Signal.tidings (s.signals a t) = (a.tiding? s).toList := by
  have hreports : ∀ l : List (Party × Delivery), Signal.tidings (l.filterMap s.report?) = [] := by
    intro l
    simp only [Signal.tidings, List.filterMap_filterMap, List.filterMap_eq_nil_iff]
    intro x _
    unfold report?
    split <;> rfl
  rw [signals, Signal.tidings, List.filterMap_append]
  refine (congrArg _ (hreports _)).trans ((List.append_nil _).trans ?_)
  cases a with
  | begin o => cases o <;> rfl
  | listen =>
    simp only [Action.party?, Option.toList_some, List.flatMap_singleton]
    cases Action.tiding? s .listen <;> rfl
  | resume p =>
    simp only [Action.party?, Option.toList_some, List.flatMap_singleton]
    cases Action.tiding? s (.resume p) <;> rfl
  | answer | timeOut | retry | turn => rfl
  | dispatch | sleep | feed | endFeed | perform | release | abandon | collect => rfl

theorem Announced.told (h : Announced s xs t) : Told s (Signal.tidings xs) t := by
  induction h with
  | start => exact .start
  | @step xs t u a _ ho hkept _ hact ih =>
    have happend : Signal.tidings (t.signals a u ++ xs) =
        (a.tiding? t).toList ++ Signal.tidings xs := by
      rw [← tidings_signals t a u]
      exact List.filterMap_append
    exact happend ▸ .step a ih ho hkept hact

/-- What was reported, and what is being reported, is what there was to report, in this order; and each
party has made known what it had to for the events it took up, but for what is still to come. -/
structure Consistent (xs : List (Party × Signal)) (t : Engine) : Prop where
  orderly : t.Orderly
  manned : t.Manned
  sending : ∀ p state, (p, state) ∈ Signal.senders xs ↔ (t.due p).head? = some (.queued state)
  nodup : ((Signal.senders xs).map Prod.fst).Nodup
  order : (Signal.tidings xs).map Tiding.state =
    ((Signal.senders xs).map Prod.snd).reverse ++ Signal.reports xs
  episodes : ∀ p, Signal.ofParty p xs ++ t.due p =
    (Signal.events (Signal.ofParty p xs)).flatMap Session.episode

theorem Consistent.tiding {x : Tiding} (h : Consistent xs s) (horderly : t.Orderly)
    (hmanned : t.Manned) (hbefore : ∀ state, (s.due p).head? ≠ some (.queued state))
    (hafter : (t.due p).head? = some (.queued x.state))
    (hothers : ∀ q, q ≠ p → t.due q = s.due q)
    (hepisodes : Signal.ofParty p xs ++ [.tiding x] ++ t.due p =
      (Signal.events (Signal.ofParty p xs ++ [.tiding x])).flatMap Session.episode) :
    Consistent ((p, .tiding x) :: xs) t := by
  have hfree : ∀ state, (p, state) ∉ Signal.senders xs := fun state hm =>
    hbefore state ((h.sending p state).mp hm)
  refine ⟨horderly, hmanned, fun q state => ?_, ?_, ?_, fun q => ?_⟩
  · rw [Signal.senders, List.mem_append, List.mem_singleton]
    by_cases hq : q = p
    · subst hq
      simp [hfree, hafter, eq_comm]
    · simp [hothers q hq, h.sending, hq]
  · rw [Signal.senders, List.map_append, List.nodup_append]
    refine ⟨h.nodup, List.nodup_singleton _, fun q hq q' hq' => ?_⟩
    obtain ⟨⟨q, state⟩, hm, rfl⟩ := List.mem_map.mp hq
    obtain rfl := List.mem_singleton.mp hq'
    rintro rfl
    exact hfree state hm
  · rw [Signal.senders, List.map_append, List.reverse_append]
    exact congrArg (x.state :: ·) h.order
  · by_cases hq : q = p
    · subst hq
      rw [Signal.ofParty_cons_self]
      exact hepisodes
    · rw [Signal.ofParty_cons_of_ne hq, hothers q hq]
      exact h.episodes q

/-- The party that is served is the one that has been sending longest. -/
theorem Consistent.exists_senders {state : LinkState} (h : Consistent xs s)
    (hdue : (s.due p).head? = some (.queued state))
    (hserved : (Signal.senders xs).head?.map Prod.fst = some p) :
    ∃ ys, Signal.senders xs = (p, state) :: ys ∧ ∀ y ∈ ys, y.1 ≠ p := by
  have hmem : (p, state) ∈ Signal.senders xs := (h.sending p state).mpr hdue
  obtain ⟨⟨q, state'⟩, ys, hs⟩ := List.exists_cons_of_ne_nil (List.ne_nil_of_mem hmem)
  obtain rfl : q = p := by simpa [hs] using hserved
  have hnodup := h.nodup
  rw [hs, List.map_cons, List.nodup_cons] at hnodup
  have hlater : ∀ y ∈ ys, y.1 ≠ q := fun y hy he =>
    hnodup.1 (List.mem_map.mpr ⟨y, hy, he⟩)
  rw [hs] at hmem
  obtain rfl : state = state' := by
    have hhead := (List.mem_cons.mp hmem).resolve_right fun hm => hlater _ hm rfl
    exact (Prod.mk.inj hhead).2
  exact ⟨ys, hs, hlater⟩

theorem Consistent.queued {state : LinkState} (h : Consistent xs s) (horderly : t.Orderly)
    (hmanned : t.Manned) (hdue : s.due p = .queued state :: t.due p)
    (hserved : (Signal.senders xs).head?.map Prod.fst = some p)
    (hothers : ∀ q, q ≠ p → t.due q = s.due q) : Consistent ((p, .queued state) :: xs) t := by
  obtain ⟨ys, hs, hlater⟩ := h.exists_senders (by rw [hdue]; rfl) hserved
  have hsenders : Signal.senders ((p, .queued state) :: xs) = ys := by
    rw [Signal.senders, hs, List.filter_cons_of_neg (by simp)]
    exact List.filter_eq_self.mpr fun y hy => by simpa using hlater y hy
  have hafter : ∀ state', (t.due p).head? ≠ some (.queued state') := by
    obtain ⟨st, hst⟩ := exists_due s p
    exact fun _ => Session.due_after_report (hst.symm.trans hdue)
  refine ⟨horderly, hmanned, fun q state' => ?_, ?_, ?_, fun q => ?_⟩
  · rw [hsenders]
    by_cases hq : q = p
    · subst hq
      exact iff_of_false (fun hm => hlater _ hm rfl) (hafter state')
    · rw [hothers q hq, ← h.sending, hs]
      simp [hq]
  · rw [hsenders]
    have hnodup := h.nodup
    rw [hs] at hnodup
    exact (List.nodup_cons.mp hnodup).2
  · calc (Signal.tidings ((p, .queued state) :: xs)).map Tiding.state
        = (Signal.tidings xs).map Tiding.state := rfl
      _ = (((p, state) :: ys).map Prod.snd).reverse ++ Signal.reports xs := by rw [h.order, hs]
      _ = (ys.map Prod.snd).reverse ++ (state :: Signal.reports xs) := by simp
      _ = ((Signal.senders ((p, .queued state) :: xs)).map Prod.snd).reverse ++
            Signal.reports ((p, .queued state) :: xs) := by rw [hsenders]; rfl
  · by_cases hq : q = p
    · subst hq
      have hevents : Signal.events (Signal.ofParty q xs ++ [.queued state]) =
          Signal.events (Signal.ofParty q xs) := by simp [Signal.events, Signal.tiding?]
      rw [Signal.ofParty_cons_self, hevents, List.append_assoc, List.singleton_append, ← hdue]
      exact h.episodes q
    · rw [Signal.ofParty_cons_of_ne hq, hothers q hq]
      exact h.episodes q

theorem Consistent.of_silent (h : Consistent xs s) (horderly : t.Orderly) (hmanned : t.Manned)
    (hk : ∀ q, t.due q = s.due q) : Consistent xs t :=
  ⟨horderly, hmanned, fun q state => by rw [hk]; exact h.sending q state, h.nodup, h.order,
    fun q => by rw [hk]; exact h.episodes q⟩

/-- A session event begins to be handled. -/
theorem Consistent.begun {e : SessionEvent} (h : Consistent xs s) (horderly : t.Orderly)
    (hmanned : t.Manned) (hfree : s.due p = [])
    (hnext : Session.episode e = .tiding (.begun e) :: t.due p)
    (hothers : ∀ q, q ≠ p → t.due q = s.due q) :
    Consistent ((p, .tiding (.begun e)) :: xs) t := by
  have hafter : t.due p = (Session.episode e).tail := by rw [hnext]; rfl
  refine h.tiding horderly hmanned (by simp [hfree]) ?_ hothers ?_
  · rw [hafter]
    cases e <;> rfl
  · have hevents : Signal.events (Signal.ofParty p xs ++ [.tiding (.begun e)]) =
        Signal.events (Signal.ofParty p xs) ++ [e] := by
      simp [Signal.events, Signal.tiding?, Tiding.event?]
    have hpast := h.episodes p
    rw [hfree, List.append_nil] at hpast
    rw [hevents, List.flatMap_append, List.flatMap_singleton, ← hpast, List.append_assoc, hnext]
    rfl

/-- A party makes the next thing known: a state goes on the queue, or a recovery ends. -/
theorem Consistent.went {x : Signal} {ys : List Signal} (h : Consistent xs s) (horderly : t.Orderly)
    (hmanned : t.Manned) (hdue : s.due p = x :: ys) (hnext : t.due p = ys)
    (hserved : ∀ state, x = .queued state → (Signal.senders xs).head?.map Prod.fst = some p)
    (hothers : ∀ q, q ≠ p → t.due q = s.due q) : Consistent ((p, x) :: xs) t := by
  subst hnext
  cases x with
  | queued state => exact h.queued horderly hmanned hdue (hserved state rfl) hothers
  | tiding x =>
    obtain ⟨st, hst⟩ := exists_due s p
    refine h.tiding horderly hmanned (by simp [hdue])
      (Session.due_after_tiding (hst.symm.trans hdue)) hothers ?_
    have hevents : Signal.events (Signal.ofParty p xs ++ [.tiding x]) =
        Signal.events (Signal.ofParty p xs) := by
      cases x with
      | begun e =>
        have hbegun : .tiding (.begun e) ∈ st.due := by
          rw [← hst, hdue]
          exact .head _
        exact absurd rfl (Session.ne_begun_of_due hbegun e)
      | restored => simp [Signal.events, Signal.tiding?, Tiding.event?]
    rw [hevents, List.append_assoc, List.singleton_append, ← hdue]
    exact h.episodes p

theorem Consistent.act (h : Consistent xs s) (ho : s.client.closed = false)
    (hkept : ∀ id st, a = .abandon id → s.call? id = some (.session st) → st = .done)
    (hserved : ∀ p state, (p, .queued state) ∈ s.signals a t →
      (Signal.senders xs).head?.map Prod.fst = some p)
    (ha : act a s = some t) : Consistent (s.signals a t ++ xs) t := by
  have horderly := orderly_act h.orderly ha
  have hmanned := manned_act h.orderly ho h.manned ha
  cases heralds_act h.orderly ho h.manned hkept ha with
  | begun p e free next signals others =>
    rw [signals]
    exact h.begun horderly hmanned free next others
  | went p speaks others =>
    generalize hdue : s.due p = ys at speaks
    generalize hnext : t.due p = ys' at speaks
    generalize s.signals a t = new at speaks hserved
    cases speaks with
    | silent =>
      refine h.of_silent horderly hmanned fun q => ?_
      by_cases hq : q = p
      · rw [hq, hdue, hnext]
      · exact others q hq
    | spoke x ys =>
      refine h.went horderly hmanned hdue hnext (fun state hx => ?_) others
      exact hserved p state (by simp [hx])

end Engine

end NodeWatch
