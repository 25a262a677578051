import Mathlib.Logic.Relation
import NodeWatch.Engine

/-! What an action changes. An engine's operations are in the hands of its callers, of the
background worker and of the feed's listener; apart from the moves of these operations an action
only begins or ends one, passes a removal on, or carries out a delivery. -/

namespace NodeWatch

/-- A script that can be played to its end is a run, when each of its parts is a step. -/
theorem run_of_foldlM {σ α : Type} {R : σ → σ → Prop} {play : σ → α → Option σ} {as : List α}
    {s t : σ} (hstep : ∀ a ∈ as, ∀ s t, play s a = some t → R s t)
    (h : as.foldlM play s = some t) : Relation.ReflTransGen R s t := by
  induction as generalizing s with
  | nil => exact Option.some.inj h ▸ .refl
  | cons a as ih =>
    obtain ⟨u, hu, h⟩ := Option.bind_eq_some_iff.mp h
    exact .head (hstep a (.head _) s u hu) (ih (fun b hb => hstep b (.tail _ hb)) h)

/-- How an operation that was begun goes on. -/
inductive Move where
  | resume
  | answer (slot : Nat) (answer : Answer)
  | timeOut (slot : Nat)
  | retry (slot : Nat)

namespace Operation

def move (m : Move) (p : Party) (o : Operation) (c : Client) : Option (Operation × Client) :=
  match m with
  | .resume => o.resume p c
  | .answer slot x => o.answer slot x c
  | .timeOut slot => o.timeOut slot c
  | .retry slot => o.retry slot c

end Operation

namespace Worker

/-- The removal in the worker's hands. -/
def task? : Worker → Option Operation
  | removing b s _ => some (.removal b.request s)
  | _ => none

def put (w : Worker) (o : Operation) : Worker :=
  match w, o with
  | removing b _ awake, .removal _ s => removing b s awake
  | w, _ => w

/-- The same work, awake or asleep. -/
inductive SameWork : Worker → Worker → Prop
  | removing (b : BackgroundRemoval) (s : Removal.Stage) (x y : Bool) :
    SameWork (.removing b s x) (.removing b s y)
  | reporting (f : String) (e : ClientEvent) (x y : Bool) :
    SameWork (.reporting f e x) (.reporting f e y)

end Worker

namespace Listener

/-- The event in the listener's hands. -/
def task? : Listener → Option Operation
  | handling s => some (.session s)
  | _ => none

def put (l : Listener) (o : Operation) : Listener :=
  match o with
  | .session s => .ofStage s
  | _ => l

end Listener

namespace Engine

/-- The action by which a party's operation makes a move. -/
def actionOf (p : Party) : Move → Action
  | .resume => .resume p
  | .answer slot x => .answer p slot x
  | .timeOut slot => .timeOut p slot
  | .retry slot => .retry p slot

theorem actionOf_inj {p q : Party} {m l : Move} (h : actionOf p m = actionOf q l) :
    p = q ∧ m = l := by
  cases m <;> cases l <;> cases h <;> exact ⟨rfl, rfl⟩

/-- The operation in a party's hands. -/
def task? (s : Engine) : Party → Option Operation
  | .caller id => s.call? id
  | .remover => s.worker.task?
  | .listener => s.listener.task?

def put (s : Engine) (p : Party) (o : Operation) (c : Client) : Engine :=
  match p with
  | .caller id => s.setCall id o c
  | .remover => { s with worker := s.worker.put o, client := c }
  | .listener => { s with listener := s.listener.put o, client := c }

/-- Everything that an action can do to an engine, unless it is one by which a closed client's workers
or its listener stop. -/
inductive Change (s : Engine) : Action → Engine → Prop
  | begun (o : Order) (held : s.held = true) :
    Change s (.begin o) { s with
      calls := s.calls ++ [(s.nextCall, (Operation.start o s.client).1)]
      nextCall := s.nextCall + 1
      client := (Operation.start o s.client).2 }
  | moved {a : Action} (p : Party) (m : Move) (o o' : Operation) (c : Client)
    (action : a = actionOf p m) (task : s.task? p = some o)
    (move : o.move m p s.client = some (o', c)) : Change s a (s.put p o' c)
  | concluded (b : BackgroundRemoval) (r : Except Fault (List Entry))
    (worker : s.worker = .removing b (.done r) true) :
    Change s (.resume .remover) { s with
      worker := (Worker.conclude b r s.client).1, client := (Worker.conclude b r s.client).2 }
  | reported (f : String) (e : ClientEvent) (sent : Bool) (c : Client)
    (worker : s.worker = .reporting f e true)
    (send : s.client.send .remover (.completion f e) = (sent, c)) :
    Change s (.resume .remover) { s with
      worker := if sent then .idle else .reporting f e true, client := c }
  | dispatched (conduct : Client → Call → Conduct) (d : Delivery) (q : Queue Delivery)
    (dispatching : s.dispatching = true) (take : s.client.deliveries.take? = some (d, q)) :
    Change s (.dispatch conduct)
      { s with client := { s.client with deliveries := q }.deliver conduct d }
  | silenced (conduct : Client → Call → Conduct) (silent : s.silent = true) :
    Change s (.dispatch conduct) (s.stopDispatching (s.client.remark .deliveryQueueClosed))
  | took (b : BackgroundRemoval) (q : Queue BackgroundRemoval) (worker : s.worker = .idle)
    (take : s.client.removals.take? = some (b, q)) :
    Change s .turn { s with worker := .received b, client := { s.client with removals := q } }
  | retired (worker : s.worker = .idle) (take : s.client.removals.take? = none)
    (orphaned : s.orphaned = true) :
    Change s .turn { s with worker := .stopped, client := (Worker.stop s.client).2 }
  | undertook (b : BackgroundRemoval) (worker : s.worker = .received b)
    (opened : s.client.closed = false) :
    Change s .turn { s with
      worker := .removing b (Removal.start b.request s.client).1 true
      client := (Removal.start b.request s.client).2 }
  | stirred {a : Action} (w : Worker) (action : a = .turn ∨ a = .sleep)
    (same : s.worker.SameWork w) : Change s a { s with worker := w }
  | lagged (listener : s.listener = .idle) :
    Change s .listen { s with
      feed := { s.feed with lost := 0 }, client := s.client.remark (.feedLagged s.feed.lost) }
  | heard (e : SessionEvent) (es : List SessionEvent) (listener : s.listener = .idle)
    (unread : s.feed.unread = e :: es) (opened : s.client.closed = false) :
    Change s .listen { s with
      listener := .ofStage (Session.start e s.client).1
      feed := { s.feed with unread := es }, client := (Session.start e s.client).2 }
  | deafened (listener : s.listener = .idle) : Change s .listen { s with listener := .stopped }
  | fed (e : SessionEvent) : Change s (.feed e) { s with feed := s.feed.send e }
  | feedEnded : Change s .endFeed { s with feed := s.feed.close }
  | performed (d : Deed) : Change s (.perform d) { s with client := s.client.apply d }
  | released : Change s .release { s with held := false }
  | abandoned (id : Nat) (o : Operation) (task : s.call? id = some o) :
    Change s (.abandon id) { s with
      calls := s.calls.filter fun x => x.1 ≠ id
      client := { s.client with
        deliveries := s.client.deliveries.withdraw (.caller id)
        removals := s.client.removals.withdraw (.caller id) } }
  | collected (id : Nat) (o : Operation) (x : Outcome) (task : s.call? id = some o)
    (outcome : o.outcome? = some x) :
    Change s (.collect id) { s with calls := s.calls.filter fun x => x.1 ≠ id }

/-- What becomes of the dispatch worker, the background worker and the listener of a closed client. -/
inductive Shutdown (s : Engine) : Action → Engine → Prop
  | dispatching (conduct : Client → Call → Conduct) :
    Shutdown s (.dispatch conduct) (s.stopDispatching s.client)
  | worker : Shutdown s .turn { s with worker := .stopped, client := (Worker.stop s.client).2 }
  | listener (listener : s.listener = .idle) :
    Shutdown s .listen { s with listener := .stopped }

theorem updateCall_change {id : Nat} {f : Operation → Client → Option (Operation × Client)}
    {m : Move} {s t : Engine} (hf : ∀ o c, f o c = o.move m (.caller id) c)
    (h : updateCall id f s = some t) : Change s (actionOf (.caller id) m) t := by
  simp only [updateCall, Option.bind_eq_bind, Option.bind_eq_some_iff, Option.some.injEq] at h
  obtain ⟨o, ho, ⟨o', c⟩, hm, rfl⟩ := h
  exact .moved (.caller id) m o o' c rfl ho (hf o s.client ▸ hm)

theorem updateListener_change {m : Move}
    {f : Session.Stage → Client → Option (Session.Stage × Client)} {s t : Engine}
    (hf : ∀ st c, (Operation.session st).move m .listener c =
      (f st c).map (·.map Operation.session id))
    (h : updateListener f s = some t) : Change s (actionOf .listener m) t := by
  obtain ⟨⟨l, c⟩, hl, rfl⟩ := Option.map_eq_some_iff.mp h
  cases hs : s.listener with
  | handling st =>
    simp only [hs, Listener.update, Option.map_eq_some_iff] at hl
    obtain ⟨⟨st', c'⟩, hm, he⟩ := hl
    obtain ⟨rfl, rfl⟩ := Prod.mk.inj he
    have hc := Change.moved (s := s) .listener m (.session st) (.session st') c' rfl
      (by simp [task?, hs, Listener.task?]) (by simp [hf, hm])
    simpa [put, Listener.put, hs] using hc
  | idle => simp [hs, Listener.update] at hl
  | stopped => simp [hs, Listener.update] at hl

theorem updateWorker_resume_change {s t : Engine} (h : updateWorker Worker.resume s = some t) :
    Change s (.resume .remover) t := by
  obtain ⟨⟨w, c⟩, hw, rfl⟩ := Option.map_eq_some_iff.mp h
  simp only [Worker.resume] at hw
  split at hw
  · rename_i b r hb
    obtain ⟨rfl, rfl⟩ := Prod.mk.inj (Option.some.inj hw)
    exact .concluded b r hb
  · rename_i b st _ hb
    obtain ⟨⟨st', c'⟩, hm, he⟩ := Option.map_eq_some_iff.mp hw
    obtain ⟨rfl, rfl⟩ := Prod.mk.inj he
    have hc := Change.moved (s := s) .remover .resume (.removal b.request st)
      (.removal b.request st') c' rfl (by simp [task?, hb, Worker.task?])
      (by simp [Operation.move, Operation.resume, hm])
    simpa [put, Worker.put, hb, actionOf] using hc
  · rename_i f e hb
    split at hw
    · cases hw
    · cases hs : s.client.send .remover (.completion f e) with
      | mk sent c' =>
        have hc := Change.reported (s := s) f e sent c' hb hs
        cases sent <;> simp_all
  · cases hw

theorem updateWorker_answer_change {slot : Nat} {x : Answer} {s t : Engine}
    (h : updateWorker (Worker.answer slot x) s = some t) :
    Change s (.answer .remover slot x) t := by
  obtain ⟨⟨w, c⟩, hw, rfl⟩ := Option.map_eq_some_iff.mp h
  simp only [Worker.answer] at hw
  split at hw
  · rename_i b st hb
    obtain ⟨⟨st', c'⟩, hm, he⟩ := Option.map_eq_some_iff.mp hw
    obtain ⟨rfl, rfl⟩ := Prod.mk.inj he
    have hc := Change.moved (s := s) .remover (.answer slot x) (.removal b.request st)
      (.removal b.request st') c' rfl (by simp [task?, hb, Worker.task?])
      (by simp [Operation.move, Operation.answer, hm])
    simpa [put, Worker.put, hb, actionOf] using hc
  · cases hw

theorem updateWorker_turn_change {s t : Engine} (ho : s.client.closed = false)
    (h : updateWorker (Worker.turn s.orphaned) s = some t) : Change s .turn t := by
  obtain ⟨⟨w, c⟩, hw, rfl⟩ := Option.map_eq_some_iff.mp h
  have hn : ¬s.client.closed = true := by simp [ho]
  cases hs : s.worker with
  | idle =>
    simp only [hs, Worker.turn, if_neg hn] at hw
    cases hq : s.client.removals.take? with
    | some x =>
      obtain ⟨b, q⟩ := x
      simp only [hq, Option.some.injEq, Prod.mk.injEq] at hw
      obtain ⟨rfl, rfl⟩ := hw
      exact .took b q hs hq
    | none =>
      simp only [hq] at hw
      split at hw
      · rename_i hp
        obtain ⟨rfl, rfl⟩ := Prod.mk.inj (Option.some.inj hw)
        exact .retired hs hq hp
      · cases hw
  | received b =>
    simp only [hs, Worker.turn, if_neg hn, Option.some.injEq, Prod.mk.injEq] at hw
    obtain ⟨rfl, rfl⟩ := hw
    exact .undertook b hs ho
  | removing b st awake =>
    cases awake with
    | true => simp [hs, Worker.turn] at hw
    | false =>
      simp only [hs, Worker.turn, if_neg hn, Option.some.injEq, Prod.mk.injEq] at hw
      obtain ⟨rfl, rfl⟩ := hw
      exact .stirred _ (.inl rfl) (hs ▸ .removing b st false true)
  | reporting f e awake =>
    cases awake with
    | true => simp [hs, Worker.turn] at hw
    | false =>
      simp only [hs, Worker.turn, if_neg hn, Option.some.injEq, Prod.mk.injEq] at hw
      obtain ⟨rfl, rfl⟩ := hw
      exact .stirred _ (.inl rfl) (hs ▸ .reporting f e false true)
  | stopped => simp [hs, Worker.turn] at hw

theorem sleep_change {w : Worker} {s : Engine} (h : s.worker.sleep = some w) :
    Change s .sleep { s with worker := w } := by
  simp only [Worker.sleep] at h
  split at h
  · rename_i b st hb
    obtain rfl := Option.some.inj h
    exact .stirred _ (.inr rfl) (hb ▸ .removing b st true false)
  · rename_i f e hb
    obtain rfl := Option.some.inj h
    exact .stirred _ (.inr rfl) (hb ▸ .reporting f e true false)
  · cases h

theorem dispatch_change {conduct : Client → Call → Conduct} {s t : Engine}
    (ho : s.client.closed = false) (h : dispatch conduct s = some t) :
    Change s (.dispatch conduct) t := by
  have hn : ¬s.client.closed = true := by simp [ho]
  simp only [dispatch, if_neg hn] at h
  split at h
  · cases h
  · rename_i hd
    split at h
    · rename_i d q hq
      obtain rfl := Option.some.inj h
      exact .dispatched conduct d q (by simpa using hd) hq
    · split at h
      · rename_i hs
        obtain rfl := Option.some.inj h
        exact .silenced conduct hs
      · cases h

/-- What the listener of an open client does when it looks at its feed. -/
inductive Listened (s : Engine) : Engine → Prop
  | lagged (idle : s.listener = .idle) (lagging : 0 < s.feed.lost) :
    Listened s { s with
      feed := { s.feed with lost := 0 }, client := s.client.remark (.feedLagged s.feed.lost) }
  | heard (e : SessionEvent) (es : List SessionEvent) (idle : s.listener = .idle)
    (lossless : s.feed.lost = 0) (unread : s.feed.unread = e :: es) :
    Listened s { s with
      listener := .ofStage (Session.start e s.client).1
      feed := { s.feed with unread := es }, client := (Session.start e s.client).2 }
  | deafened (idle : s.listener = .idle) (lossless : s.feed.lost = 0) (unread : s.feed.unread = [])
    (ended : s.feed.isOpen = false) : Listened s { s with listener := .stopped }

theorem listened {s t : Engine} (ho : s.client.closed = false) (h : listen s = some t) :
    Listened s t := by
  obtain ⟨⟨l, f, c⟩, hl, rfl⟩ := Option.map_eq_some_iff.mp h
  have hn : ¬s.client.closed = true := by simp [ho]
  cases hs : s.listener with
  | idle =>
    simp only [hs, Listener.listen, if_neg hn] at hl
    split at hl
    · rename_i hlost
      obtain ⟨rfl, rfl, rfl⟩ := Option.some.inj hl
      have hlagged := Listened.lagged hs hlost
      rw [← hs]
      exact hlagged
    · rename_i hlost
      have hzero : s.feed.lost = 0 := Nat.eq_zero_of_not_pos hlost
      split at hl
      · rename_i e es hu
        obtain ⟨rfl, rfl, rfl⟩ := Option.some.inj hl
        exact .heard e es hs hzero hu
      · rename_i hu
        split at hl
        · cases hl
        · rename_i hended
          obtain ⟨rfl, rfl, rfl⟩ := Option.some.inj hl
          exact .deafened hs hzero hu (by simpa using hended)
  | handling st => simp [hs, Listener.listen] at hl
  | stopped => simp [hs, Listener.listen] at hl

theorem listen_change {s t : Engine} (ho : s.client.closed = false) (h : listen s = some t) :
    Change s .listen t := by
  cases listened ho h with
  | lagged idle => exact .lagged idle
  | heard e es idle _ unread => exact .heard e es idle unread ho
  | deafened idle => exact .deafened idle

theorem turn_shutdown {s t : Engine} (hc : s.client.closed = true)
    (h : updateWorker (Worker.turn s.orphaned) s = some t) : Shutdown s .turn t := by
  obtain ⟨⟨w, c⟩, hw, rfl⟩ := Option.map_eq_some_iff.mp h
  have hstop : Worker.stop s.client = (w, c) := by
    simp only [Worker.turn, if_pos hc] at hw
    split at hw <;> first | exact Option.some.inj hw | cases hw
  obtain ⟨rfl, rfl⟩ := Prod.mk.inj hstop
  exact .worker

theorem dispatch_shutdown {conduct : Client → Call → Conduct} {s t : Engine}
    (hc : s.client.closed = true) (h : dispatch conduct s = some t) :
    Shutdown s (.dispatch conduct) t := by
  simp only [dispatch, if_pos hc] at h
  split at h
  · cases h
  · cases h
    exact .dispatching conduct

theorem listen_shutdown {s t : Engine} (hc : s.client.closed = true) (h : listen s = some t) :
    Shutdown s .listen t := by
  obtain ⟨⟨l, f, c⟩, hl, rfl⟩ := Option.map_eq_some_iff.mp h
  cases hs : s.listener with
  | idle =>
    simp only [hs, Listener.listen, if_pos hc, Option.some.injEq, Prod.mk.injEq] at hl
    obtain ⟨rfl, rfl, rfl⟩ := hl
    exact .listener hs
  | handling st => simp [hs, Listener.listen] at hl
  | stopped => simp [hs, Listener.listen] at hl

/-- An action does nothing but one of these changes; only what stops a worker or the listener of a
closed client is not among them. -/
theorem act_change_or_shutdown {a : Action} {s t : Engine} (h : act a s = some t) :
    Change s a t ∨ s.client.closed = true ∧ Shutdown s a t := by
  cases a with
  | begin o =>
    simp only [act, begin] at h
    split at h
    · rename_i hh
      obtain rfl := Option.some.inj h
      exact .inl (.begun o hh)
    · cases h
  | resume p =>
    cases p with
    | caller id => exact .inl (updateCall_change (m := .resume) (fun _ _ => rfl) h)
    | remover => exact .inl (updateWorker_resume_change h)
    | listener => exact .inl (updateListener_change (m := .resume) (fun _ _ => rfl) h)
  | answer p slot x =>
    cases p with
    | caller id => exact .inl (updateCall_change (m := .answer slot x) (fun _ _ => rfl) h)
    | remover => exact .inl (updateWorker_answer_change h)
    | listener => exact .inl (updateListener_change (m := .answer slot x) (fun _ _ => rfl) h)
  | timeOut p slot =>
    cases p with
    | caller id => exact .inl (updateCall_change (m := .timeOut slot) (fun _ _ => rfl) h)
    | remover => cases h
    | listener => exact .inl (updateListener_change (m := .timeOut slot) (fun _ _ => rfl) h)
  | retry p slot =>
    cases p with
    | caller id => exact .inl (updateCall_change (m := .retry slot) (fun _ _ => rfl) h)
    | remover => cases h
    | listener => exact .inl (updateListener_change (m := .retry slot) (fun _ _ => rfl) h)
  | dispatch conduct =>
    cases hc : s.client.closed with
    | false => exact .inl (dispatch_change hc h)
    | true => exact .inr ⟨rfl, dispatch_shutdown hc h⟩
  | turn =>
    cases hc : s.client.closed with
    | false => exact .inl (updateWorker_turn_change hc h)
    | true => exact .inr ⟨rfl, turn_shutdown hc h⟩
  | sleep =>
    obtain ⟨w, hw, rfl⟩ := Option.map_eq_some_iff.mp h
    exact .inl (sleep_change hw)
  | listen =>
    cases hc : s.client.closed with
    | false => exact .inl (listen_change hc h)
    | true => exact .inr ⟨rfl, listen_shutdown hc h⟩
  | feed e =>
    simp only [act, feedEvent] at h
    split at h
    · obtain rfl := Option.some.inj h
      exact .inl (.fed e)
    · cases h
  | endFeed =>
    obtain rfl := Option.some.inj h
    exact .inl .feedEnded
  | perform d =>
    simp only [act] at h
    split at h
    · obtain rfl := Option.some.inj h
      exact .inl (.performed d)
    · cases h
  | release =>
    simp only [act] at h
    split at h
    · obtain rfl := Option.some.inj h
      exact .inl .released
    · cases h
  | abandon id =>
    obtain ⟨o, hc, rfl⟩ := Option.map_eq_some_iff.mp h
    exact .inl (.abandoned id o hc)
  | collect id =>
    obtain ⟨x, hx, rfl⟩ := Option.map_eq_some_iff.mp h
    obtain ⟨o, hc, hx⟩ := Option.bind_eq_some_iff.mp hx
    exact .inl (.collected id o x hc hx)

/-- An action on an engine whose client is open does nothing but one of these changes. -/
theorem act_change {a : Action} {s t : Engine} (ho : s.client.closed = false)
    (h : act a s = some t) : Change s a t :=
  (act_change_or_shutdown h).resolve_right fun hc => Bool.false_ne_true (ho.symm.trans hc.1)

end Engine

end NodeWatch
