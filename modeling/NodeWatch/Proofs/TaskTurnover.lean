import NodeWatch.Proofs.RemovalHandover

/-! What an action does to the tasks, to the removals handed over, and to the client they share.
Statements about every run go through this view: a task is started, moves, ends or is given up, and
apart from that the client changes only beside its operations. -/

namespace NodeWatch

namespace Operation

/-- The operation has come to its end. -/
def Finished (o : Operation) : Prop :=
  o.outcome?.isSome = true

instance : DecidablePred Finished := fun o => inferInstanceAs (Decidable (o.outcome?.isSome = true))

theorem move_of_finished {o : Operation} (h : o.Finished) (m : Move) (p : Party) (c : Client) :
    o.move m p c = none := by
  cases o with
  | arming a st => cases st with
    | asked => cases h
    | done r => cases m <;> simp [move, resume, answer, timeOut, retry, Arming.answer]
  | removal r st => cases st with
    | done x =>
      cases m <;> simp [move, resume, answer, timeOut, retry, Removal.answer, Removal.resume]
    | asking | confirming | checking | rearming => cases h
  | enrolment b st => cases st with
    | offering => cases h
    | done r => cases m <;> simp [move, resume, answer, timeOut, retry, Enrolment.resume]
  | notification st => cases st with
    | telling => cases h
    | done => cases m <;> simp [move, resume, answer, timeOut, retry, Notification.resume]
  | session st => cases st with
    | done =>
      cases m <;> simp [move, resume, answer, timeOut, retry, Session.answer, Session.resume,
        Session.timeOut, Session.retry, Session.update]
    | expiring | expired | resubmitting | dropping | reporting => cases h

end Operation

namespace Engine

/-- The action gives an order to the client, or answers one of its requests. -/
def Action.fromOutside : Action → Bool
  | .begin _ | .answer .. => true
  | _ => false

/-- Where a task comes from: a call, the queue of removals, or the feed. -/
inductive Origin (s : Engine) : Action → Party → Order → List BackgroundRemoval → Prop
  | call (o : Order) : Origin s (.begin o) (.caller s.nextCall) o []
  | removal (b : BackgroundRemoval) (worker : s.worker = .received b) :
    Origin s .turn .remover (.remove b.request) [b]
  | event (e : SessionEvent) : Origin s .listen .listener (.session e) []

inductive Turnover (s : Engine) (a : Action) (t : Engine) : Prop
  | started (p : Party) (o : Order) (taken : List BackgroundRemoval)
    (origin : s.Origin a p o taken) (fresh : ∀ x ∈ s.tasks, x.1 ≠ p)
    (after : t.tasks = (p, (Operation.start o s.client).1) ::ₘ s.tasks)
    (client : t.client = (Operation.start o s.client).2) (handed : s.handed = taken ++ t.handed)
  | moved (p : Party) (m : Move) (o o' : Operation) (rest : Multiset (Party × Operation))
    (action : a = actionOf p m) (before : s.tasks = (p, o) ::ₘ rest)
    (move : o.move m p s.client = some (o', t.client))
    (after : t.tasks = (p, o') ::ₘ rest ∨ o' = .session .done ∧ t.tasks = rest)
    (handed : t.handed = s.handed ∨ ∃ b, o = .enrolment b .offering ∧
      o' = .enrolment b (.done (.ok ())) ∧ t.handed = s.handed ++ [b])
  | ended (p : Party) (o : Operation) (rest : Multiset (Party × Operation))
    (inside : a.fromOutside = false) (before : s.tasks = (p, o) ::ₘ rest) (finished : o.Finished)
    (after : t.tasks = rest) (aside : s.client.Aside t.client) (handed : t.handed = s.handed)
  | abandoned (id : Nat) (o : Operation) (rest : Multiset (Party × Operation))
    (action : a = .abandon id) (before : s.tasks = (.caller id, o) ::ₘ rest)
    (after : t.tasks = rest) (aside : s.client.Aside t.client) (handed : t.handed = s.handed)
  | beside (inside : a.fromOutside = false) (after : t.tasks = s.tasks)
    (aside : s.client.Aside t.client) (handed : t.handed = s.handed)
  | silenced (inside : a.fromOutside = false) (silent : s.silent = true)
    (after : t = s.stopDispatching (s.client.remark .deliveryQueueClosed))

/-- Every operation has come to its end, and no removal waits for the worker. -/
def AtRest (s : Engine) : Prop :=
  (∀ x ∈ s.tasks, x.2.Finished) ∧ s.handed = []

instance : DecidablePred AtRest := fun _ => inferInstanceAs (Decidable (_ ∧ _))

/-- What the engine does of its own accord, at the pace of its tasks or at the user's hand, short of
beginning an operation or giving one up. -/
def Action.isOwn : Action → Bool
  | .resume _ | .timeOut .. | .retry .. | .dispatch _ | .turn | .sleep | .collect _ | .perform _
  | .release => true
  | .begin _ | .answer .. | .listen | .feed _ | .endFeed | .abandon _ => false

theorem task_unique {s : Engine} (hs : s.Orderly) {p : Party} {o o' : Operation}
    (h : (p, o) ∈ s.tasks) (h' : (p, o') ∈ s.tasks) : o = o' := by
  have hinj := Multiset.inj_on_of_nodup_map (nodup_parties hs) (p, o) h (p, o') h' rfl
  exact (Prod.mk.inj hinj).2

theorem waits_of_mem {s : Engine} (hs : s.Orderly) {p : Party} {o : Operation}
    (h : (p, o) ∈ s.tasks) : s.waits p = o.waits s.client.settings.resubmit := by
  rcases mem_tasks.mp h with ⟨id, hid, rfl⟩ | ⟨rfl, hw⟩ | ⟨rfl, hl⟩
  · have hcall := call?_of_mem hs hid
    rw [waits, hcall]
    rfl
  · cases hs : s.worker with
    | removing b st awake =>
      obtain rfl : Operation.removal b.request st = o := by simpa [hs, Worker.task?] using hw
      rw [waits, hs]
      rfl
    | idle | received | reporting | stopped => simp [hs, Worker.task?] at hw
  · cases hs : s.listener with
    | handling st =>
      obtain rfl : Operation.session st = o := by simpa [hs, Listener.task?] using hl
      rw [waits, hs]
      rfl
    | idle | stopped => simp [hs, Listener.task?] at hl

theorem exists_task_of_waits {s : Engine} {p : Party} (h : s.waits p ≠ []) :
    ∃ o, (p, o) ∈ s.tasks := by
  cases p with
  | caller id =>
    cases hc : s.call? id with
    | none => exact absurd (by rw [waits, hc]; rfl) h
    | some o =>
      obtain ⟨l₁, l₂, hl, _⟩ := List.lookup_eq_some_iff.mp hc
      exact ⟨o, mem_tasks.mpr (.inl ⟨id, hl ▸ List.mem_append_right _ (.head _), rfl⟩)⟩
  | remover =>
    cases hw : s.worker with
    | removing b st awake =>
      exact ⟨_, mem_tasks.mpr (.inr (.inl ⟨rfl, by rw [hw]; rfl⟩))⟩
    | idle | received | reporting | stopped => exact absurd (by rw [waits, hw]; rfl) h
  | listener =>
    cases hl : s.listener with
    | handling st => exact ⟨_, mem_tasks.mpr (.inr (.inr ⟨rfl, by rw [hl]; rfl⟩))⟩
    | idle | stopped => exact absurd (by rw [waits, hl]; rfl) h

theorem put_handed {s : Engine} {p : Party} {m : Move} {o o' : Operation} {c : Client}
    (hm : o.move m p s.client = some (o', c)) :
    (s.put p o' c).handed = s.handed ∨ ∃ b, o = .enrolment b .offering ∧
      o' = .enrolment b (.done (.ok ())) ∧ (s.put p o' c).handed = s.handed ++ [b] := by
  have hclient : (s.put p o' c).client = c := by cases p <;> rfl
  have hreceived := received?_put s p o' c
  by_cases ho : ∀ b st, o ≠ .enrolment b st
  · refine .inl (handed_congr hreceived ?_)
    rw [hclient, Operation.removals_move hm ho]
  · simp only [not_forall, not_not] at ho
    obtain ⟨b, st, rfl⟩ := ho
    cases Operation.moves hm with
    | refused => exact .inl (handed_congr hreceived (by rw [hclient]))
    | enrolled b q offer =>
      refine .inr ⟨b, rfl, rfl, ?_⟩
      rw [handed, handed, hreceived, hclient, Queue.items_of_accepted offer, List.append_assoc]
    | lining b q offer =>
      exact .inl (handed_congr hreceived (by rw [hclient, Queue.items_of_mustWait offer]))

theorem put_turnover {s : Engine} (hs : s.Orderly) {a : Action} {p : Party} {m : Move}
    {o o' : Operation} {c : Client} (ha : a = actionOf p m) (ho : s.task? p = some o)
    (hm : o.move m p s.client = some (o', c)) : Turnover s a (s.put p o' c) := by
  cases p with
  | caller id =>
    obtain ⟨l₁, l₂, hc, hne⟩ := call_split hs ho
    refine .moved (.caller id) m o o' _ ha (tasks_of_calls hc) hm (.inl ?_) (put_handed hm)
    have hc' : (s.setCall id o' c).calls = l₁ ++ (id, o') :: l₂ := by
      simp only [setCall, hc]
      exact map_split hne
    exact tasks_of_calls hc'
  | remover =>
    refine .moved .remover m o o' _ ha (tasks_of_worker ho) hm (.inl ?_) (put_handed hm)
    cases hw : s.worker with
    | removing b st awake =>
      have hop : o = .removal b.request st := by simpa [task?, hw, Worker.task?] using ho.symm
      subst hop
      obtain ⟨st', rfl⟩ : ∃ st', o' = .removal b.request st' := by
        cases Operation.moves hm with
        | removing r st st' => exact ⟨st', rfl⟩
        | settling r slot x st st' => exact ⟨st', rfl⟩
      have hw' : (s.put .remover (.removal b.request st') c).worker.task? =
          some (.removal b.request st') := by simp [put, Worker.put, hw, Worker.task?]
      exact tasks_of_worker hw'
    | idle => simp [task?, hw, Worker.task?] at ho
    | received => simp [task?, hw, Worker.task?] at ho
    | reporting => simp [task?, hw, Worker.task?] at ho
    | stopped => simp [task?, hw, Worker.task?] at ho
  | listener =>
    refine .moved .listener m o o' _ ha (tasks_of_listener ho) hm ?_ (put_handed hm)
    cases hl : s.listener with
    | handling st =>
      have hop : o = .session st := by simpa [task?, hl, Listener.task?] using ho.symm
      subst hop
      obtain ⟨st', rfl⟩ : ∃ st', o' = .session st' := by
        cases Operation.moves hm with
        | handling st st' => exact ⟨st', rfl⟩
        | answered slot x st st' => exact ⟨st', rfl⟩
        | timedOut slot st st' => exact ⟨st', rfl⟩
        | retried slot st st' => exact ⟨st', rfl⟩
      by_cases hd : st' = .done
      · subst hd
        exact .inr ⟨rfl, tasks_congr rfl rfl rfl⟩
      · have hl' : (s.put .listener (.session st') c).listener.task? = some (.session st') := by
          cases st' <;> first | rfl | exact absurd rfl hd
        exact .inl (tasks_of_listener hl')
    | idle => simp [task?, hl, Listener.task?] at ho
    | stopped => simp [task?, hl, Listener.task?] at ho

theorem begun_turnover {s : Engine} (hs : s.Orderly) (o : Order) (op : Operation) (c : Client)
    (h : Operation.start o s.client = (op, c)) :
    Turnover s (.begin o) { s with
      calls := s.calls ++ [(s.nextCall, op)], nextCall := s.nextCall + 1, client := c } := by
  have hc : c = (Operation.start o s.client).2 := by rw [h]
  have hhanded : ({ s with
      calls := s.calls ++ [(s.nextCall, op)], nextCall := s.nextCall + 1, client := c } :
        Engine).handed = s.handed := by
    refine handed_congr rfl ?_
    change c.removals.items = s.client.removals.items
    rw [hc, (Operation.undisturbed_start o s.client).removals]
  refine .started (.caller s.nextCall) o [] (.call o) ?_ ?_ hc hhanded.symm
  · rintro ⟨p, op'⟩ hx rfl
    rcases mem_tasks.mp hx with ⟨id, hid, he⟩ | ⟨he, _⟩ | ⟨he, _⟩
    · have hlt := hs.2 _ hid
      obtain rfl := Party.caller.inj he
      exact Nat.lt_irrefl _ hlt
    · cases he
    · cases he
  · have hcalls : s.calls ++ [(s.nextCall, op)] = s.calls ++ (s.nextCall, op) :: [] := rfl
    rw [h, tasks_of_calls hcalls]
    exact congrArg _ (tasks_congr (List.append_nil _) rfl rfl)

theorem undertook_turnover {s : Engine} (ho : s.client.closed = false) {b : BackgroundRemoval}
    (hw : s.worker = .received b) :
    Turnover s .turn { s with
      worker := .removing b (Removal.start b.request s.client).1 true
      client := (Removal.start b.request s.client).2 } := by
  have hst := Operation.start_remove ho b.request
  have hnone : s.worker.task? = none := by rw [hw]; rfl
  have hhanded : s.handed = [b] ++ ({ s with
      worker := .removing b (Removal.start b.request s.client).1 true
      client := (Removal.start b.request s.client).2 } : Engine).handed := by
    rw [handed, handed, hw, (Removal.undisturbed_start b.request s.client).removals]
    rfl
  refine .started .remover (.remove b.request) [b] (.removal b hw) ?_ ?_ (by rw [hst]) hhanded
  · rintro ⟨p, o⟩ hx rfl
    rcases mem_tasks.mp hx with ⟨id, _, he⟩ | ⟨_, ht⟩ | ⟨he, _⟩
    · cases he
    · rw [hnone] at ht
      cases ht
    · cases he
  · rw [hst, tasks_of_worker rfl]
    exact congrArg _ (tasks_congr rfl hnone.symm rfl)

theorem start_ne_done (e : SessionEvent) (c : Client) : (Session.start e c).1 ≠ .done := by
  cases e <;> simp [Session.start]

theorem heard_turnover {s : Engine} (ho : s.client.closed = false) (e : SessionEvent) (f : Feed)
    (hl : s.listener = .idle) :
    Turnover s .listen { s with
      listener := .ofStage (Session.start e s.client).1
      feed := f, client := (Session.start e s.client).2 } := by
  have hst : Operation.start (.session e) s.client =
      (.session (Session.start e s.client).1, (Session.start e s.client).2) := by
    simp [Operation.start, Session.startOpen, ho, Prod.map]
  have hnone : s.listener.task? = none := by rw [hl]; rfl
  have htask : (Listener.ofStage (Session.start e s.client).1).task? =
      some (.session (Session.start e s.client).1) := by
    have hne := start_ne_done e s.client
    generalize (Session.start e s.client).1 = st at hne ⊢
    cases st <;> first | rfl | exact absurd rfl hne
  have hhanded : ({ s with
      listener := .ofStage (Session.start e s.client).1
      feed := f, client := (Session.start e s.client).2 } : Engine).handed = s.handed := by
    refine handed_congr rfl ?_
    cases e <;> rfl
  refine .started .listener (.session e) [] (.event e) ?_ ?_ (by rw [hst]) hhanded.symm
  · rintro ⟨p, o⟩ hx rfl
    rcases mem_tasks.mp hx with ⟨id, _, he⟩ | ⟨he, _⟩ | ⟨_, ht⟩
    · cases he
    · cases he
    · rw [hnone] at ht
      cases ht
  · rw [hst, tasks_of_listener htask]
    exact congrArg _ (tasks_congr rfl rfl hnone.symm)

theorem filtered_tasks {s : Engine} (hs : s.Orderly) {id : Nat} {o : Operation} (c : Client)
    (ho : s.call? id = some o) :
    s.tasks = (.caller id, o) ::ₘ
      ({ s with calls := s.calls.filter fun x => x.1 ≠ id, client := c } : Engine).tasks := by
  obtain ⟨l₁, l₂, hc, hne⟩ := call_split hs ho
  have hf : s.calls.filter (fun x => x.1 ≠ id) = l₁ ++ l₂ := by
    rw [hc]
    exact filter_split hne
  rw [tasks_of_calls hc, hf]
  rfl

theorem stirred_turnover {s : Engine} {a : Action} {w : Worker} (ha : a = .turn ∨ a = .sleep)
    (h : s.worker.SameWork w) : Turnover s a { s with worker := w } := by
  have hinside : a.fromOutside = false := by rcases ha with rfl | rfl <;> rfl
  refine .beside hinside (tasks_congr rfl ?_ rfl) (.refl _) (handed_congr ?_ rfl)
  · generalize s.worker = w' at h
    cases h <;> rfl
  · generalize s.worker = w' at h
    cases h <;> rfl

/-- What an action on an engine whose client is open does to the tasks. -/
theorem act_turnover {a : Action} {s t : Engine} (hs : s.Orderly) (ho : s.client.closed = false)
    (h : act a s = some t) : Turnover s a t := by
  cases act_change ho h with
  | begun o held => exact begun_turnover hs o _ _ rfl
  | moved p m o o' c action task move => exact put_turnover hs action task move
  | concluded b r worker =>
    have ht : s.worker.task? = some (.removal b.request (.done r)) := by rw [worker]; rfl
    refine .ended .remover _ _ rfl (tasks_of_worker ht) rfl (tasks_congr rfl ?_ rfl) ?_
      (handed_congr ?_ ?_)
    · cases hb : b.callback <;> cases r <;> simp [Worker.conclude, hb, Worker.task?]
    · cases hb : b.callback <;> cases r <;>
        simp [Worker.conclude, hb, Client.Aside.refl, Client.Aside.remark]
    · cases hb : b.callback <;> cases r <;> simp [Worker.conclude, hb, worker, Worker.received?]
    · cases hb : b.callback <;> cases r <;> simp [Worker.conclude, hb, Client.remark, Client.note]
  | reported f e sent c worker send =>
    have hsent : c = (s.client.send .remover (.completion f e)).2 := by rw [send]
    refine .beside rfl (tasks_congr rfl ?_ rfl) ?_ (handed_congr ?_ ?_)
    · cases sent <;> simp [worker, Worker.task?]
    · rw [hsent]
      exact Client.Aside.send_completion s.client .remover f e
    · cases sent <;> simp [worker, Worker.received?]
    · rw [hsent, Client.removals_send]
  | dispatched conduct d q dispatching take =>
    refine .beside rfl (tasks_congr rfl rfl rfl) ?_ (handed_congr rfl ?_)
    · exact (Client.Aside.of_eq rfl rfl (Queue.isOpen_take take) rfl :
        s.client.Aside { s.client with deliveries := q }).trans (.deliver conduct _ d)
    · rw [Client.removals_deliver]
  | silenced conduct silent => exact .silenced rfl silent rfl
  | took b q worker take =>
    refine .beside rfl (tasks_congr rfl (by rw [worker]; rfl) rfl) (.of_eq rfl rfl rfl rfl) ?_
    rw [handed, handed, worker, Queue.items_take take]
    rfl
  | retired worker take orphaned =>
    refine .beside rfl (tasks_congr rfl (by rw [worker]; rfl) rfl)
      (.of_eq rfl rfl (Queue.isOpen_withdraw _ _) rfl) (handed_congr (by rw [worker]; rfl) ?_)
    rw [Queue.items_of_take_none take]
    rfl
  | undertook b worker => exact undertook_turnover ho worker
  | stirred w action same => exact stirred_turnover action same
  | lagged listener =>
    exact .beside rfl (tasks_congr rfl rfl rfl) (.remark _ _) rfl
  | heard e es listener unread => exact heard_turnover ho e _ listener
  | deafened listener =>
    exact .beside rfl (tasks_congr rfl rfl (by rw [listener]; rfl)) (.refl _) rfl
  | fed e => exact .beside rfl (tasks_congr rfl rfl rfl) (.refl _) rfl
  | feedEnded => exact .beside rfl (tasks_congr rfl rfl rfl) (.refl _) rfl
  | performed d =>
    exact .beside rfl (tasks_congr rfl rfl rfl) (.apply _ d)
      (handed_congr rfl (by rw [Client.removals_apply]))
  | released => exact .beside rfl (tasks_congr rfl rfl rfl) (.refl _) rfl
  | abandoned id o task =>
    exact .abandoned id o _ rfl (filtered_tasks hs _ task) rfl
      (.of_eq rfl rfl (Queue.isOpen_withdraw _ _) rfl) (handed_congr rfl (Queue.items_withdraw _ _))
  | collected id o x task outcome =>
    refine .ended (.caller id) o _ rfl (filtered_tasks hs s.client task) ?_ rfl (.refl _) rfl
    rw [Operation.Finished, outcome]
    rfl

theorem begin_turnover {s t : Engine} (hs : s.Orderly) (ho : s.client.closed = false) {o : Order}
    (h : act (.begin o) s = some t) :
    ∃ p, (∀ x ∈ s.tasks, x.1 ≠ p) ∧ t.tasks = (p, (Operation.start o s.client).1) ::ₘ s.tasks ∧
      t.client = (Operation.start o s.client).2 ∧ s.handed = t.handed := by
  cases act_turnover hs ho h with
  | started p o' taken origin fresh after client handed =>
    cases origin
    exact ⟨_, fresh, after, client, handed⟩
  | moved p m o₁ o' rest action => cases m <;> cases action
  | ended p o₁ rest inside => cases inside
  | abandoned id o₁ rest action => cases action
  | beside inside => cases inside
  | silenced inside => cases inside

theorem answer_turnover {s t : Engine} (hs : s.Orderly) (ho : s.client.closed = false) {p : Party}
    {slot : Nat} {x : Answer} (h : act (.answer p slot x) s = some t) :
    ∃ o o' rest, s.tasks = (p, o) ::ₘ rest ∧
      o.move (.answer slot x) p s.client = some (o', t.client) ∧
      (t.tasks = (p, o') ::ₘ rest ∨ o' = .session .done ∧ t.tasks = rest) ∧
      t.handed = s.handed := by
  cases act_turnover hs ho h with
  | started p o' taken origin => cases origin
  | moved p₁ m o o' rest action before move after handed =>
    obtain ⟨rfl, rfl⟩ : p = p₁ ∧ m = .answer slot x := by
      cases m <;> cases action
      exact ⟨rfl, rfl⟩
    refine ⟨o, o', rest, before, move, after, handed.resolve_right ?_⟩
    rintro ⟨b, rfl, _⟩
    cases move
  | ended p o₁ rest inside => cases inside
  | abandoned id o₁ rest action => cases action
  | beside inside => cases inside
  | silenced inside => cases inside

/-- At most one task is gone, and that one had come to its end. -/
def Keeps (s t : Engine) : Prop :=
  t.tasks = s.tasks ∨ ∃ x : Party × Operation, x.2.Finished ∧ s.tasks = x ::ₘ t.tasks

theorem Keeps.mem {s t : Engine} (h : s.Keeps t) {x : Party × Operation} (hx : x ∈ t.tasks) :
    x ∈ s.tasks := by
  rcases h with he | ⟨y, _, he⟩
  · exact he ▸ hx
  · rw [he]
    exact Multiset.mem_cons_of_mem hx

theorem Keeps.mem_of_unfinished {s t : Engine} (h : s.Keeps t) {x : Party × Operation}
    (hx : x ∈ s.tasks) (hn : ¬x.2.Finished) : x ∈ t.tasks := by
  rcases h with he | ⟨y, hfin, he⟩
  · exact he ▸ hx
  · rw [he, Multiset.mem_cons] at hx
    refine hx.resolve_left ?_
    rintro rfl
    exact hn hfin

theorem atRest_of_build {settings : Settings} {feed : Option Nat} {s : Engine}
    (h : build settings feed = .built s) : s.AtRest := by
  obtain ⟨d, r, _, hr, rfl⟩ := build_eq h
  have hitems : r.items = [] := by
    rw [(Queue.ofCapacity_eq_ok.mp hr).2.2]
  have htasks : (initial settings d r feed).tasks = 0 := by
    cases feed <;> rfl
  exact ⟨by simp [htasks], hitems⟩

end Engine

end NodeWatch
