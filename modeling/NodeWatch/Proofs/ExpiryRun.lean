import Mathlib.Data.List.Basic
import Mathlib.Logic.Function.Basic
import NodeWatch.Proofs.Chronicle
import NodeWatch.Proofs.OperationCourses
import NodeWatch.Proofs.RetryForecast

/-! A party that handles a session event while no other operation goes on, and the clock. The party
does what it can at once, answers come when the server gives them, and time passes when there is
nothing else to do: a task that waits is late at a certain moment and not before. User code goes on
being called, and does not close the client. -/

namespace NodeWatch

open Session (Spot)

namespace Queue

variable {α : Type}

/-- Nobody but this party has to do with the places of the queue. -/
def FreeFor (q : Queue α) (p : Party) : Prop :=
  q.line = [] ∧ (q.admitted = [] ∨ q.admitted = [p]) ∨
    q.line = [p] ∧ q.admitted = [] ∧ q.items ≠ []

theorem FreeFor.take {q q' : Queue α} {p : Party} {x : α} (h : q.FreeFor p)
    (ht : q.take? = some (x, q')) :
    q'.line = [] ∧ (q'.admitted = [p] ∨ q.line = [] ∧ q'.admitted = q.admitted) := by
  simp only [take?] at ht
  split at ht
  · cases ht
  · obtain ⟨_, rfl⟩ := Prod.mk.inj (Option.some.inj ht)
    rcases h with ⟨hline, _⟩ | ⟨hline, hadmitted, _⟩
    · simp [grant, hline]
    · simp [grant, hline, hadmitted]

theorem capacity_take {q q' : Queue α} {x : α} (h : q.take? = some (x, q')) :
    q'.capacity = q.capacity := by
  simp only [take?] at h
  split at h
  · cases h
  · obtain ⟨_, rfl⟩ := Prod.mk.inj (Option.some.inj h)
    simp only [grant]
    split <;> rfl

theorem FreeFor.of_take {q q' : Queue α} {p : Party} {x : α} (h : q.FreeFor p)
    (ht : q.take? = some (x, q')) : q'.FreeFor p := by
  obtain ⟨hline, hadmitted⟩ := h.take ht
  rcases hadmitted with hadmitted | ⟨hold, hadmitted⟩
  · exact .inl ⟨hline, .inr hadmitted⟩
  · refine .inl ⟨hline, ?_⟩
    rw [hadmitted]
    rcases h with ⟨_, h⟩ | ⟨h, _⟩
    · exact h
    · rw [hold] at h
      cases h

theorem FreeFor.offer {q : Queue α} {p : Party} (h : q.FreeFor p) (ho : q.isOpen = true)
    (hc : 0 < q.capacity) (x : α) :
    (q.line = [] ∧ q.offer p x = .accepted { q with items := q.items ++ [x], admitted := [] }) ∨
      ((q.line = [p] ∨ q.line = [] ∧ q.admitted = []) ∧ { q with line := [p] }.FreeFor p ∧
        q.offer p x = .mustWait { q with line := [p] }) := by
  obtain ⟨capacity, items, line, admitted, isOpen⟩ := q
  obtain rfl : isOpen = true := ho
  simp only [Queue.offer, Bool.not_true, Bool.false_eq_true, if_false]
  rcases h with ⟨hline, hadmitted | hadmitted⟩ | ⟨hline, hadmitted, hitems⟩
  · obtain rfl : line = [] := hline
    obtain rfl : admitted = [] := hadmitted
    simp only [List.not_mem_nil, if_false]
    split
    · exact .inl ⟨trivial, rfl⟩
    · rename_i hroom
      refine .inr ⟨.inr ⟨trivial, trivial⟩, .inr ⟨rfl, rfl, fun hnil => hroom ?_⟩, rfl⟩
      obtain rfl : items = [] := hnil
      simpa [room] using hc
  · obtain rfl : line = [] := hline
    obtain rfl : admitted = [p] := hadmitted
    simp only [List.mem_singleton, if_true]
    exact .inl ⟨trivial, by simp⟩
  · obtain rfl : line = [p] := hline
    obtain rfl : admitted = [] := hadmitted
    simp only [List.not_mem_nil, if_false, List.mem_singleton, if_true]
    exact .inr ⟨.inl trivial, .inr ⟨rfl, rfl, hitems⟩, trivial⟩

theorem FreeFor.stalls {q : Queue α} {p : Party} (h : q.FreeFor p) (ho : q.isOpen = true) :
    q.stalls p = true ↔ q.line = [p] := by
  rcases h with ⟨hline, _⟩ | ⟨hline, hadmitted, _⟩
  · simp [Queue.stalls, hline]
  · simp [Queue.stalls, hline, hadmitted, ho]

end Queue

/-- User code was called, or a remark was written. -/
def Occurrence.isIdle : Occurrence → Bool
  | called _ | remarked _ => true
  | _ => false

namespace Client

theorem silent_of_idle {os : List Occurrence} (h : ∀ o ∈ os, o.isIdle = true) :
    queuings os = [] ∧ askings os = [] := by
  constructor
  all_goals
    refine List.filterMap_eq_nil_iff.mpr fun o ho => ?_
    have hidle := h o (List.mem_reverse.mp ho)
    cases o <;> first | rfl | cases hidle

/-- User code was called in between, or a remark was written, and nothing else happened. -/
structure Stays (c c' : Client) : Prop where
  registry : c'.registry = c.registry
  settings : c'.settings = c.settings
  deliveries : c'.deliveries = c.deliveries
  removals : c'.removals = c.removals
  ledger : c'.ledger = c.ledger
  connected : c'.connected = c.connected
  closed : c'.closed = c.closed
  idle : ∃ os, c'.journal = os ++ c.journal ∧ ∀ o ∈ os, o.isIdle = true

namespace Stays

theorem journal {c c' : Client} (h : c.Stays c') :
    ∃ os, c'.journal = os ++ c.journal ∧ queuings os = [] ∧ askings os = [] := by
  obtain ⟨os, hj, hidle⟩ := h.idle
  exact ⟨os, hj, silent_of_idle hidle⟩

theorem refl (c : Client) : c.Stays c :=
  ⟨rfl, rfl, rfl, rfl, rfl, rfl, rfl, [], rfl, by simp⟩

theorem trans {c₁ c₂ c₃ : Client} (h : c₁.Stays c₂) (h' : c₂.Stays c₃) : c₁.Stays c₃ := by
  obtain ⟨os, hj, ho⟩ := h.idle
  obtain ⟨os', hj', ho'⟩ := h'.idle
  refine ⟨h'.registry.trans h.registry, h'.settings.trans h.settings,
    h'.deliveries.trans h.deliveries, h'.removals.trans h.removals, h'.ledger.trans h.ledger,
    h'.connected.trans h.connected, h'.closed.trans h.closed, os' ++ os, ?_, fun o hm => ?_⟩
  · rw [hj', hj, List.append_assoc]
  · exact (List.mem_append.mp hm).elim (ho' o) (ho o)

theorem note (c : Client) {o : Occurrence} (h : o.isIdle = true) : c.Stays (c.note o) :=
  ⟨rfl, rfl, rfl, rfl, rfl, rfl, rfl, [o], rfl, by simp [h]⟩

theorem of_remarked {c c' : Client} (h : c.Remarked c') : c.Stays c' := by
  induction h with
  | none => exact refl c
  | more _ r ih => exact ih.trans (note _ rfl)

theorem apply (c : Client) {d : Deed} (h : d ≠ .close) : c.Stays (c.apply d) := by
  cases d with
  | close => exact absurd rfl h
  | addListener | removeListener =>
    exact ⟨rfl, rfl, rfl, rfl, rfl, rfl, rfl, [], rfl, by simp⟩

theorem foldl {α : Type} {f : Client → α → Client} {xs : List α}
    (hf : ∀ (c : Client), ∀ x ∈ xs, c.Stays (f c x)) (c : Client) : c.Stays (xs.foldl f c) := by
  induction xs generalizing c with
  | nil => exact refl c
  | cons x xs ih =>
    exact (hf c x (.head _)).trans (ih (fun c y hy => hf c y (.tail _ hy)) (f c x))

theorem call {conduct : Client → Call → Conduct}
    (hopen : ∀ c x, .close ∉ (conduct c x).deeds) (c : Client) (x : Call) :
    c.Stays (c.call conduct x) := by
  have h : c.Stays
      ((conduct (c.note (.called x)) x).deeds.foldl Client.apply (c.note (.called x))) := by
    refine (note c rfl).trans (foldl (fun c d hd => apply c ?_) _)
    rintro rfl
    exact hopen _ _ hd
  unfold Client.call
  dsimp only
  split
  · exact h.trans (note _ rfl)
  · exact h

theorem deliver {conduct : Client → Call → Conduct}
    (hopen : ∀ c x, .close ∉ (conduct c x).deeds) (c : Client) (d : Delivery) :
    c.Stays (c.deliver conduct d) :=
  foldl (fun c x _ => call hopen c x) c

end Stays

/-- An open client whose deliveries are awaited by this party alone. -/
structure Calm (c : Client) (p : Party) : Prop where
  opened : c.closed = false
  isOpen : c.deliveries.isOpen = true
  capacity : 0 < c.deliveries.capacity
  free : c.deliveries.FreeFor p

theorem Calm.of_eq {c c' : Client} {p : Party} (h : c.Calm p) (hc : c'.closed = c.closed)
    (hd : c'.deliveries = c.deliveries) : c'.Calm p :=
  ⟨hc.trans h.opened, hd ▸ h.isOpen, hd ▸ h.capacity, hd ▸ h.free⟩

theorem Calm.take {c : Client} {p : Party} {d : Delivery} {q : Queue Delivery} (h : c.Calm p)
    (ht : c.deliveries.take? = some (d, q)) : { c with deliveries := q }.Calm p := by
  refine ⟨h.opened, ?_, ?_, h.free.of_take ht⟩
  · exact (Queue.isOpen_take ht).trans h.isOpen
  · exact (Queue.capacity_take ht).symm ▸ h.capacity

theorem Calm.send {c : Client} {p : Party} (h : c.Calm p) (d : Delivery) :
    (c.deliveries.line = [] ∧ ∃ q, c.send p d = (true, { c with deliveries := q }.note (.queued d)) ∧
        { c with deliveries := q }.Calm p ∧
        q = { c.deliveries with items := c.deliveries.items ++ [d], admitted := [] }) ∨
      ((c.deliveries.line = [p] ∨ c.deliveries.line = [] ∧ c.deliveries.admitted = []) ∧
        ∃ q, c.send p d = (false, { c with deliveries := q }) ∧ { c with deliveries := q }.Calm p ∧
          q = { c.deliveries with line := [p] }) := by
  rcases h.free.offer h.isOpen h.capacity d with ⟨hline, hq⟩ | ⟨hline, hfree, hq⟩
  · have hsend : c.send p d = (true, { c with deliveries :=
        { c.deliveries with items := c.deliveries.items ++ [d], admitted := [] } }.note
          (.queued d)) := by simp only [Client.send, hq]
    exact .inl ⟨hline, _, hsend, ⟨h.opened, h.isOpen, h.capacity, .inl ⟨hline, .inl rfl⟩⟩, rfl⟩
  · have hsend : c.send p d = (false, { c with deliveries := { c.deliveries with line := [p] } }) := by
      simp only [Client.send, hq]
    exact .inr ⟨hline, _, hsend, ⟨h.opened, h.isOpen, h.capacity, hfree⟩, rfl⟩

end Client

namespace Backoff

variable {policy : BackoffPolicy} {c c' : Client} {st st' : Stage}

theorem started_failed (n delay : Nat) (f : Fault) :
    isUnstarted (failed policy n delay f c).1 = false := by
  simp only [failed]
  split <;> rfl

theorem started_answer {x : Answer} (hm : answer policy x st c = some (st', c')) :
    isUnstarted st' = false := by
  simp only [answer] at hm
  split at hm
  · obtain ⟨rfl, _⟩ := Prod.mk.inj (Option.some.inj hm)
    rfl
  · obtain rfl : (failed policy _ _ _ _).1 = st' := congrArg Prod.fst (Option.some.inj hm)
    exact started_failed _ _ _
  · cases hm

theorem started_timeOut (hm : timeOut policy st c = some (st', c')) : isUnstarted st' = false := by
  simp only [timeOut] at hm
  split at hm
  · obtain rfl : (failed policy _ _ _ _).1 = st' := congrArg Prod.fst (Option.some.inj hm)
    exact started_failed _ _ _
  · cases hm

end Backoff

namespace Engine

variable {s t : Engine} {p : Party} {st : Session.Stage}

/-- The party handles a session event, and is at this stage. The listener lets go of an event when it
has handled it. -/
def Handles (s : Engine) (p : Party) (st : Session.Stage) : Prop :=
  s.task? p = some (.session st) ∨ p = .listener ∧ s.listener = .idle ∧ st = .done

theorem task?_remover_ne (s : Engine) (st : Session.Stage) :
    s.task? .remover ≠ some (.session st) := by
  cases hw : s.worker <;> simp [task?, hw, Worker.task?]

theorem Handles.ne_remover {s : Engine} {p : Party} {st : Session.Stage} (h : s.Handles p st) :
    p ≠ .remover := by
  rintro rfl
  rcases h with htask | ⟨hp, _⟩
  · exact task?_remover_ne s st htask
  · cases hp

theorem Handles.task {s : Engine} {p : Party} {st : Session.Stage} (h : s.Handles p st)
    (hd : st ≠ .done) : s.task? p = some (.session st) :=
  h.resolve_right fun hl => hd hl.2.2

theorem dispatching_put (s : Engine) (p : Party) (o : Operation) (c : Client) :
    (s.put p o c).dispatching = s.dispatching := by
  cases p <;> rfl

theorem Handles.put (h : s.task? p = some (.session st)) (st' : Session.Stage) (c : Client) :
    (s.put p (.session st') c).Handles p st' := by
  cases p with
  | caller id =>
    refine .inl ?_
    rw [Engine.put, task?_setCall, if_pos rfl, h]
    rfl
  | remover => exact absurd h (task?_remover_ne s st)
  | listener =>
    cases st' with
    | done => exact .inr ⟨rfl, rfl, rfl⟩
    | expiring | expired | resubmitting | dropping | reporting => exact .inl rfl

theorem Handles.unique {st' : Session.Stage} (h : s.Handles p st) (h' : s.Handles p st') :
    st = st' := by
  rcases h with h | ⟨rfl, hl, rfl⟩ <;> rcases h' with h' | ⟨hp, hl', rfl⟩
  · exact Operation.session.inj (Option.some.inj (h.symm.trans h'))
  · subst hp
    simp [task?, hl', Listener.task?] at h
  · simp [task?, hl, Listener.task?] at h'
  · rfl

/-- Only the party itself moves what it handles. -/
theorem Handles.moved (h : s.Handles p st) {m : Move} (ho : s.client.closed = false)
    (hact : act (actionOf p m) s = some t) :
    ∃ st', (Operation.session st).move m p s.client = some (.session st', t.client) ∧
      s.task? p = some (.session st) ∧ t = s.put p (.session st') t.client := by
  have hchange := act_change ho hact
  generalize ha : actionOf p m = a at hchange
  cases hchange with
  | moved q l o o' c action task move =>
    obtain ⟨rfl, rfl⟩ := actionOf_inj (ha.trans action)
    have htask : s.task? p = some (.session st) := by
      refine h.resolve_right ?_
      rintro ⟨rfl, hl, _⟩
      simp [task?, hl, Listener.task?] at task
    obtain rfl := Option.some.inj (htask.symm.trans task)
    obtain ⟨st', rfl⟩ : ∃ st', o' = .session st' := by
      cases Operation.moves move <;> exact ⟨_, rfl⟩
    have hclient : (s.put p (.session st') c).client = c := by cases p <;> rfl
    exact ⟨st', by rw [hclient]; exact move, htask, by rw [hclient]⟩
  | concluded b r worker =>
    exact absurd (actionOf_inj (l := .resume) ha).1 h.ne_remover
  | reported f e sent c worker send =>
    exact absurd (actionOf_inj (l := .resume) ha).1 h.ne_remover
  | stirred w action same => rcases action with rfl | rfl <;> cases m <;> cases ha
  | _ => cases m <;> cases ha

theorem act_of_move {m : Move} {st' : Session.Stage} {c : Client}
    (h : s.task? p = some (.session st))
    (hm : (Operation.session st).move m p s.client = some (.session st', c)) :
    act (actionOf p m) s = some (s.put p (.session st') c) := by
  cases p with
  | caller id =>
    have hcall : s.call? id = some (.session st) := h
    cases m <;> simp_all [act, actionOf, Engine.resume, Engine.answer, Engine.timeOut, Engine.retry,
      updateCall, Operation.move, Engine.put]
  | remover => exact absurd h (task?_remover_ne s st)
  | listener =>
    obtain hl : s.listener = .handling st := by
      cases hs : s.listener <;> simp_all [task?, Listener.task?]
    cases m with
    | resume =>
      obtain ⟨st₁, he, hr⟩ := Operation.of_part (f := .session) hm
      obtain rfl := Operation.session.inj he
      simp [act, actionOf, Engine.resume, updateListener, Listener.update, hl, hr, Engine.put,
        Listener.put]
    | answer slot x =>
      obtain ⟨st₁, he, hr⟩ := Operation.of_part (f := .session) hm
      obtain rfl := Operation.session.inj he
      simp [act, actionOf, Engine.answer, updateListener, Listener.update, hl, hr, Engine.put,
        Listener.put]
    | timeOut slot =>
      obtain ⟨st₁, he, hr⟩ := Operation.of_part (f := .session) hm
      obtain rfl := Operation.session.inj he
      simp [act, actionOf, Engine.timeOut, updateListener, Listener.update, hl, hr, Engine.put,
        Listener.put]
    | retry slot =>
      obtain ⟨st₁, he, hr⟩ := Operation.of_part (f := .session) hm
      obtain rfl := Operation.session.inj he
      simp [act, actionOf, Engine.retry, updateListener, Listener.update, hl, hr, Engine.put,
        Listener.put]

theorem waits_of_task (h : s.task? p = some (.session st)) :
    s.waits p = Session.waits s.client.settings.resubmit st := by
  cases p with
  | caller id =>
    have hcall : s.call? id = some (.session st) := h
    rw [waits, hcall]
    rfl
  | remover => exact absurd h (task?_remover_ne s st)
  | listener =>
    obtain hl : s.listener = .handling st := by
      cases hs : s.listener <;> simp_all [task?, Listener.task?]
    rw [waits, hl]
    rfl

theorem Handles.not_silent (h : s.Handles p st) : s.silent = false := by
  cases p with
  | caller id =>
    have hne : s.calls ≠ [] := by
      rintro hnil
      rcases h with hcall | ⟨hp, _⟩
      · simp [task?, call?, hnil] at hcall
      · cases hp
    simp [silent, orphaned, hne]
  | remover => exact absurd rfl h.ne_remover
  | listener =>
    have hl : s.listener.isStopped = false := by
      rcases h with h | ⟨_, h, _⟩
      · cases hs : s.listener <;> simp_all [task?, Listener.task?, Listener.isStopped]
      · rw [h]
        rfl
    simp [silent, hl]

/-- The dispatch worker carries out the oldest delivery, and does nothing else. -/
theorem Handles.dispatched (h : s.Handles p st) (ho : s.client.closed = false)
    {conduct : Client → Call → Conduct} (hact : act (.dispatch conduct) s = some t) :
    ∃ d q, s.client.deliveries.take? = some (d, q) ∧
      t = { s with client := { s.client with deliveries := q }.deliver conduct d } := by
  cases act_change ho hact with
  | dispatched _ d q _ take => exact ⟨d, q, take, rfl⟩
  | silenced _ silent =>
    rw [h.not_silent] at silent
    cases silent
  | moved q m _ _ _ action => cases m <;> cases action
  | stirred _ action => rcases action with h | h <;> cases h

end Engine

/-- One attempt of a task. The tasks are numbered from zero, the attempts of each from one. -/
structure Attempt where
  slot : Nat
  number : Nat
  time : Nat
  deriving DecidableEq

/-- The moment a wait can last to, counted from its beginning. -/
def Wait.limit? : Wait → Option Nat
  | .answer _ limit => limit
  | .pause length => some length

structure ExpiryRun where
  engine : Engine
  now : Nat
  /-- When each task was last at work. -/
  changed : Nat → Nat
  /-- The attempts of all tasks, the earliest first. -/
  attempts : List Attempt
  /-- What the attempts of each task heard, the earliest first. -/
  replies : Nat → List Backoff.Reply
  /-- The deliveries that were carried out meanwhile, the earliest first. -/
  carried : List Delivery

namespace ExpiryRun

def opening (s : Engine) (now : Nat) : ExpiryRun :=
  ⟨s, now, fun _ => now, [], fun _ => [], []⟩

/-- When each attempt of a task was made. -/
def times (w : ExpiryRun) (i : Nat) : List Nat :=
  (w.attempts.filter (·.slot = i)).map Attempt.time

/-- The task to start next. -/
def next? (w : ExpiryRun) (p : Party) : Option Nat :=
  match w.engine.task? p with
  | some (.session (.resubmitting ts)) => ts.findIdx? (Backoff.isUnstarted ·.stage)
  | _ => none

/-- A task made an attempt. -/
def submit (w : ExpiryRun) (i : Nat) (t : Engine) : ExpiryRun :=
  { w with
    engine := t
    changed := Function.update w.changed i w.now
    attempts := w.attempts ++ [⟨i, (w.times i).length + 1, w.now⟩] }

/-- A task's attempt was answered, or was not in time. -/
def hear (w : ExpiryRun) (i : Nat) (r : Backoff.Reply) (t : Engine) : ExpiryRun :=
  { w with
    engine := t
    changed := Function.update w.changed i w.now
    replies := Function.update w.replies i (w.replies i ++ [r]) }

/-- The dispatch worker carried out what was first on the queue. -/
def carry (w : ExpiryRun) (t : Engine) : ExpiryRun :=
  { w with
    engine := t
    carried := w.carried ++ w.engine.client.deliveries.items.take 1 }

/-- What may come next while the party handles its event. -/
inductive Step (p : Party) (w : ExpiryRun) : ExpiryRun → Prop
  | worked (t : Engine) (began : w.next? p = none)
    (act : Engine.act (.resume p) w.engine = some t) : Step p w { w with engine := t }
  | began (i : Nat) (t : Engine) (next : w.next? p = some i)
    (act : Engine.act (.resume p) w.engine = some t) : Step p w (w.submit i t)
  | answered (i : Nat) (x : Answer) (t : Engine)
    (inTime : w.now ≤ w.changed i + w.engine.client.settings.resubmit.timeoutMs)
    (act : Engine.act (.answer p i x) w.engine = some t) :
    Step p w (w.hear i (.heard (w.now - w.changed i) x) t)
  | timedOut (i : Nat) (t : Engine)
    (late : w.now = w.changed i + w.engine.client.settings.resubmit.timeoutMs)
    (act : Engine.act (.timeOut p i) w.engine = some t) : Step p w (w.hear i .unheard t)
  | retried (i d : Nat) (t : Engine) (pause : (w.engine.waits p)[i]? = some (some (.pause d)))
    (elapsed : w.now = w.changed i + d) (act : Engine.act (.retry p i) w.engine = some t) :
    Step p w (w.submit i t)
  | dispatched (conduct : Client → Call → Conduct) (t : Engine)
    (opened : ∀ c x, .close ∉ (conduct c x).deeds)
    (act : Engine.act (.dispatch conduct) w.engine = some t) : Step p w (w.carry t)
  | ticked (idle : Engine.act (.resume p) w.engine = none)
    (early : ∀ i x l, (w.engine.waits p)[i]? = some (some x) → x.limit? = some l →
      w.now < w.changed i + l) : Step p w { w with now := w.now + 1 }

end ExpiryRun

end NodeWatch
