import Mathlib.Logic.Function.Basic
import NodeWatch.Proofs.OperationSendings
import NodeWatch.Proofs.EngineTasks

/-! A run with its history. Every action writes a page: what it noted, and which operation was at
work. Operations are numbered in the order in which they are begun, by callers, by the background
worker and by the listener alike, so that a history tells what each of them did. -/

namespace NodeWatch

namespace Engine

/-- The party whose operation an action begins or moves on, should it do either. -/
def Action.party? (s : Engine) : Action → Option Party
  | .begin _ => some (.caller s.nextCall)
  | .resume p | .answer p _ _ | .timeOut p _ | .retry p _ => some p
  | .turn => some .remover
  | .listen => some .listener
  | .dispatch _ | .sleep | .feed _ | .endFeed | .perform _ | .release | .abandon _ | .collect _ => none

/-- How an action bears on the operations: it begins one, moves one, or is beside them, and then no
operation is changed, though some may be given up or taken away. At most the background worker's is in
the hands of the party at work. -/
inductive Course (s : Engine) (a : Action) (t : Engine) : Prop
  | started (p : Party) (o : Order) (party : a.party? s = some p) (free : s.task? p = none)
    (task : t.task? p = some (Operation.start o s.client).1)
    (client : t.client = (Operation.start o s.client).2)
    (others : ∀ q, q ≠ p → t.task? q = s.task? q)
  | moved (p : Party) (m : Move) (o o' : Operation) (party : a.party? s = some p)
    (task : s.task? p = some o) (move : o.move m p s.client = some (o', t.client))
    (after : t.task? p = some o' ∨ p = .listener ∧ o' = .session .done ∧ t.task? p = none)
    (others : ∀ q, q ≠ p → t.task? q = s.task? q)
  | beside (kept : ∀ q, t.task? q = s.task? q ∨
      t.task? q = none ∧ (a.party? s = some q → q ≠ .listener))
    (unhanded : ∀ q, a.party? s = some q → q ≠ .remover → s.task? q = none)
    (aside : ∃ os, t.client.journal = os ++ s.client.journal ∧ ∀ x ∈ os, x.isAside = true)

theorem lookup_map (l : List (Nat × Operation)) (id id' : Nat) (o : Operation) :
    (l.map fun x => if x.1 = id then (id, o) else x).lookup id' =
      if id' = id then (l.lookup id).map fun _ => o else l.lookup id' := by
  induction l with
  | nil => simp
  | cons x l ih =>
    obtain ⟨i, o₁⟩ := x
    rw [List.map_cons, List.lookup_cons, ih, List.lookup_cons, List.lookup_cons]
    by_cases hi : i = id
    · subst hi
      by_cases h : id' = i
      · simp [h]
      · simp [h, beq_eq_false_iff_ne.mpr h]
    · by_cases h : id' = id
      · subst h
        simp [hi, beq_eq_false_iff_ne.mpr (Ne.symm hi)]
      · simp [hi, h]

theorem lookup_filter (l : List (Nat × Operation)) (id id' : Nat) :
    (l.filter fun x => x.1 ≠ id).lookup id' = if id' = id then none else l.lookup id' := by
  induction l with
  | nil => simp
  | cons x l ih =>
    obtain ⟨i, o⟩ := x
    by_cases hi : i = id
    · subst hi
      rw [List.filter_cons_of_neg (by simp), ih, List.lookup_cons]
      by_cases h : id' = i
      · simp [h]
      · simp [h, beq_eq_false_iff_ne.mpr h]
    · rw [List.filter_cons_of_pos (by simpa using hi), List.lookup_cons, ih, List.lookup_cons]
      by_cases h : id' = id
      · subst h
        simp [beq_eq_false_iff_ne.mpr (Ne.symm hi)]
      · simp [h]

theorem task?_setCall (s : Engine) (id : Nat) (o : Operation) (c : Client) (q : Party) :
    (s.setCall id o c).task? q =
      if q = .caller id then (s.task? q).map fun _ => o else s.task? q := by
  cases q with
  | caller id' =>
    simp only [task?, call?, setCall, lookup_map, Party.caller.injEq]
    by_cases h : id' = id
    · simp [h]
    · simp [h]
  | remover => rfl
  | listener => rfl

theorem task?_dismissed (s : Engine) (id : Nat) (c : Client) (q : Party) :
    ({ s with calls := s.calls.filter fun x => x.1 ≠ id, client := c } : Engine).task? q =
      if q = .caller id then none else s.task? q := by
  cases q with
  | caller id' =>
    simp only [task?, call?, Party.caller.injEq]
    exact lookup_filter s.calls id id'
  | remover => rfl
  | listener => rfl

theorem task?_fresh {s : Engine} (hs : s.Orderly) : s.task? (.caller s.nextCall) = none := by
  refine List.lookup_eq_none_iff.mpr fun x hx => ?_
  have hlt := hs.2 x hx
  simp only [bne_iff_ne, ne_eq]
  omega

theorem task?_begun {s : Engine} (hs : s.Orderly) (o : Operation) (c : Client) (q : Party) :
    ({ s with
      calls := s.calls ++ [(s.nextCall, o)], nextCall := s.nextCall + 1, client := c } :
        Engine).task? q = if q = .caller s.nextCall then some o else s.task? q := by
  cases q with
  | caller id =>
    have hfresh : s.calls.lookup s.nextCall = none := task?_fresh hs
    simp only [task?, call?, List.lookup_append, Party.caller.injEq]
    by_cases h : id = s.nextCall
    · rw [h, hfresh, if_pos rfl]
      simp
    · rw [if_neg h, List.lookup_cons, beq_eq_false_iff_ne.mpr h]
      exact Option.or_none
  | remover => rfl
  | listener => rfl

theorem task?_put {s : Engine} {p : Party} {m : Move} {o o' : Operation} {c : Client}
    (ho : s.task? p = some o) (hm : o.move m p s.client = some (o', c)) :
    ((s.put p o' c).task? p = some o' ∨
      p = .listener ∧ o' = .session .done ∧ (s.put p o' c).task? p = none) ∧
      ∀ q, q ≠ p → (s.put p o' c).task? q = s.task? q := by
  cases p with
  | caller id =>
    refine ⟨.inl ?_, fun q hq => ?_⟩
    · rw [put, task?_setCall, if_pos rfl, ho]
      rfl
    · rw [put, task?_setCall, if_neg hq]
  | remover =>
    refine ⟨.inl ?_, fun q hq => ?_⟩
    · cases hw : s.worker with
      | removing b st awake =>
        obtain rfl : Operation.removal b.request st = o := by
          simpa [task?, hw, Worker.task?] using ho
        cases Operation.moves hm <;> simp [task?, put, Worker.put, hw, Worker.task?]
      | idle | received | reporting | stopped => simp [task?, hw, Worker.task?] at ho
    · cases q <;> first | rfl | exact absurd rfl hq
  | listener =>
    refine ⟨?_, fun q hq => by cases q <;> first | rfl | exact absurd rfl hq⟩
    cases hl : s.listener with
    | handling st =>
      obtain rfl : Operation.session st = o := by
        simpa [task?, hl, Listener.task?] using ho
      obtain ⟨st', rfl⟩ : ∃ st', o' = .session st' := by
        cases Operation.moves hm <;> exact ⟨_, rfl⟩
      cases st' with
      | done => exact .inr ⟨rfl, rfl, rfl⟩
      | expiring | expired | resubmitting | dropping | reporting => exact .inl rfl
    | idle | stopped => simp [task?, hl, Listener.task?] at ho

theorem task?_remover {s : Engine} {o : Operation} (h : s.task? .remover = some o) :
    ∃ r st, o = .removal r st := by
  cases hw : s.worker with
  | removing b st awake => exact ⟨b.request, st, by simpa [task?, hw, Worker.task?, eq_comm] using h⟩
  | idle | received | reporting | stopped => simp [task?, hw, Worker.task?] at h

theorem party?_actionOf (s : Engine) (p : Party) (m : Move) :
    (actionOf p m).party? s = some p := by
  cases m <;> rfl

theorem unhanded_of_nobody {s : Engine} {a : Action} (h : a.party? s = none) :
    ∀ q, a.party? s = some q → q ≠ .remover → s.task? q = none := by
  simp [h]

theorem unhanded_of_remover {s : Engine} {a : Action} (h : a.party? s = some .remover) :
    ∀ q, a.party? s = some q → q ≠ .remover → s.task? q = none := by
  intro q hq hne
  exact absurd (Option.some.inj (hq.symm.trans h)) hne

theorem unhanded_of_listener {s : Engine} {a : Action} (h : a.party? s = some .listener)
    (hl : s.listener = .idle) : ∀ q, a.party? s = some q → q ≠ .remover → s.task? q = none := by
  intro q hq _
  rw [Option.some.inj (hq.symm.trans h)]
  simp [task?, hl, Listener.task?]

/-- What the worker holds is all that changed, and it is not a new operation. -/
theorem beside_of_worker {s t : Engine} {a : Action} (hc : t.calls = s.calls)
    (hl : t.listener = s.listener)
    (hw : t.worker.task? = s.worker.task? ∨ t.worker.task? = none)
    (hp : ∀ q, a.party? s = some q → q ≠ .remover → s.task? q = none)
    (ha : ∃ os, t.client.journal = os ++ s.client.journal ∧ ∀ x ∈ os, x.isAside = true) :
    Course s a t := by
  refine .beside (fun q => ?_) hp ha
  cases q with
  | caller id => exact .inl (congrArg (List.lookup id) hc)
  | remover => exact hw.imp id fun h => ⟨h, fun _ => Party.noConfusion⟩
  | listener => exact .inl (congrArg Listener.task? hl)

/-- A call that is let go of was all that changed. -/
theorem beside_dismissed {s : Engine} {a : Action} {c : Client} (id : Nat)
    (hp : a.party? s = none) (hj : c.journal = s.client.journal) :
    Course s a { s with calls := s.calls.filter fun x => x.1 ≠ id, client := c } := by
  refine .beside (fun q => ?_) (unhanded_of_nobody hp) ⟨[], hj, by simp⟩
  rw [task?_dismissed]
  by_cases hq : q = .caller id
  · rw [if_pos hq]
    exact .inr ⟨rfl, fun _ => by rw [hq]; exact Party.noConfusion⟩
  · exact .inl (if_neg hq)

theorem course_of_change {a : Action} {s t : Engine} (hs : s.Orderly) (h : Change s a t) :
    Course s a t := by
  have hnil : ∃ os, s.client.journal = os ++ s.client.journal ∧ ∀ x ∈ os, x.isAside = true :=
    ⟨[], rfl, by simp⟩
  cases h with
  | begun o held =>
    refine .started _ o rfl (task?_fresh hs) ?_ rfl fun q hq => ?_
    · rw [task?_begun hs, if_pos rfl]
    · rw [task?_begun hs, if_neg hq]
  | moved p m o o' c action task move =>
    obtain ⟨hafter, hothers⟩ := task?_put task move
    refine .moved p m o o' (action ▸ party?_actionOf s p m) task ?_ hafter hothers
    rw [client_put]
    exact move
  | concluded b r worker =>
    refine beside_of_worker rfl rfl (.inr ?_) (unhanded_of_remover rfl)
      (Client.Aside.of_remarked (Worker.remarked_conclude b r s.client)).journal
    cases hb : b.callback <;> cases r <;> simp [Worker.conclude, hb, Worker.task?]
  | reported f e sent c worker send =>
    have hc : c = (s.client.send .remover (.completion f e)).2 := by rw [send]
    refine beside_of_worker rfl rfl (.inl ?_) (unhanded_of_remover rfl) ?_
    · cases sent <;> simp [worker, Worker.task?]
    · rw [hc]
      exact (Client.Aside.send_completion s.client .remover f e).journal
  | dispatched conduct d q dispatching take =>
    have hq : s.client.Aside { s.client with deliveries := q } :=
      .of_eq rfl rfl (Queue.isOpen_take take) rfl
    exact beside_of_worker rfl rfl (.inl rfl) (unhanded_of_nobody rfl)
      (hq.trans (.deliver conduct _ d)).journal
  | silenced conduct silent =>
    exact beside_of_worker rfl rfl (.inl rfl) (unhanded_of_nobody rfl)
      (Client.Aside.remark s.client _).journal
  | took b q worker take =>
    exact beside_of_worker rfl rfl (.inr rfl) (unhanded_of_remover rfl) hnil
  | retired worker take orphaned =>
    exact beside_of_worker rfl rfl (.inr rfl) (unhanded_of_remover rfl) hnil
  | undertook b worker opened =>
    have hst := Operation.start_remove opened b.request
    refine .started .remover (.remove b.request) rfl (by simp [task?, worker, Worker.task?])
      (by rw [hst]; rfl) (by rw [hst]) fun q hq => ?_
    cases q <;> first | rfl | exact absurd rfl hq
  | stirred w action same =>
    refine beside_of_worker rfl rfl (.inl ?_) ?_ hnil
    · generalize s.worker = w' at same
      cases same <;> rfl
    · rcases action with rfl | rfl
      · exact unhanded_of_remover rfl
      · exact unhanded_of_nobody rfl
  | lagged listener =>
    exact beside_of_worker rfl rfl (.inl rfl) (unhanded_of_listener rfl listener)
      (Client.Aside.remark s.client _).journal
  | heard e es listener unread opened =>
    have hst : Operation.start (.session e) s.client =
        (.session (Session.start e s.client).1, (Session.start e s.client).2) := by
      simp [Operation.start, Session.startOpen, opened, Prod.map]
    refine .started .listener (.session e) rfl (by simp [task?, listener, Listener.task?]) ?_
      (by rw [hst]) fun q hq => ?_
    · rw [hst]
      cases e <;> rfl
    · cases q <;> first | rfl | exact absurd rfl hq
  | deafened listener =>
    refine .beside (fun q => .inl ?_) (unhanded_of_listener rfl listener) hnil
    cases q with
    | caller id => rfl
    | remover => rfl
    | listener => simp [task?, listener, Listener.task?]
  | performed d =>
    exact beside_of_worker rfl rfl (.inl rfl) (unhanded_of_nobody rfl)
      (Client.Aside.apply s.client d).journal
  | fed | feedEnded | released =>
    exact beside_of_worker rfl rfl (.inl rfl) (unhanded_of_nobody rfl) hnil
  | abandoned id o task => exact beside_dismissed id rfl rfl
  | collected id o x task outcome => exact beside_dismissed (c := s.client) id rfl rfl

theorem course {a : Action} {s t : Engine} (hs : s.Orderly) (h : act a s = some t) :
    Course s a t := by
  have hnil : ∃ os, s.client.journal = os ++ s.client.journal ∧ ∀ x ∈ os, x.isAside = true :=
    ⟨[], rfl, by simp⟩
  rcases act_change_or_shutdown h with h | ⟨_, h⟩
  · exact course_of_change hs h
  · cases h with
    | dispatching => exact beside_of_worker rfl rfl (.inl rfl) (unhanded_of_nobody rfl) hnil
    | worker => exact beside_of_worker rfl rfl (.inr rfl) (unhanded_of_remover rfl) hnil
    | listener listener =>
      refine .beside (fun q => .inl ?_) (unhanded_of_listener rfl listener) hnil
      cases q with
      | caller id => rfl
      | remover => rfl
      | listener => simp [task?, listener, Listener.task?]

end Engine

/-- What an action noted, the registry it found, and the deliveries it queued. -/
structure Page where
  before : Registry
  noted : List Occurrence
  posted : List Delivery

structure Chronicle where
  engine : Engine
  /-- The pages, the latest first, each with the number of the operation that was at work. -/
  pages : List (Option Nat × Page)
  /-- Every operation that was begun, as it was when it was last in its party's hands. -/
  operations : List Operation
  /-- The number of the operation in a party's hands. -/
  number : Party → Nat

namespace Chronicle

open Engine (Action)

def opening (s : Engine) : Chronicle :=
  ⟨s, [], [], fun _ => 0⟩

def page (w : Chronicle) (t : Engine) : Page where
  before := w.engine.client.registry
  noted := t.client.journal.take (t.client.journal.length - w.engine.client.journal.length)
  posted := w.engine.client.growth t.client

/-- The history after an action that left the engine `t`. The listener lets go of an event when it
has handled it. -/
def record (w : Chronicle) (a : Action) (t : Engine) : Chronicle :=
  match a.party? w.engine with
  | none => { w with engine := t, pages := (none, w.page t) :: w.pages }
  | some p =>
    match w.engine.task? p, t.task? p with
    | none, none => { w with engine := t, pages := (none, w.page t) :: w.pages }
    | none, some o =>
      { engine := t
        pages := (some w.operations.length, w.page t) :: w.pages
        operations := w.operations ++ [o]
        number := Function.update w.number p w.operations.length }
    | some o, o' =>
      { w with
        engine := t
        pages := (some (w.number p), w.page t) :: w.pages
        operations := w.operations.set (w.number p)
          (o'.getD (if p = .listener then .session .done else o)) }

def act (a : Action) (w : Chronicle) : Option Chronicle :=
  (Engine.act a w.engine).map (w.record a)

/-- The pages that an operation wrote, the latest first. -/
def own (w : Chronicle) (n : Nat) : List Page :=
  (w.pages.filter fun x => x.1 = some n).map Prod.snd

/-- Everything an operation noted, the latest first. -/
def deeds (w : Chronicle) (n : Nat) : List Occurrence :=
  (w.own n).flatMap Page.noted

def takings (w : Chronicle) (n : Nat) : List Consumption :=
  NodeWatch.takings (w.deeds n)

/-- The announcements to subscribers that an operation put on the queue, in order. -/
def tellings (w : Chronicle) (n : Nat) : List Delivery :=
  ((w.own n).reverse.flatMap Page.posted).filter Delivery.isWatched

/-- Everything noted in the run, the latest first, each with the operation that was at work. -/
def occurrences (w : Chronicle) : List (Option Nat × Occurrence) :=
  w.pages.flatMap fun x => x.2.noted.map (Prod.mk x.1)

variable {w v : Chronicle} {a : Action}

/-- Numbers and pages belong to operations. -/
structure Numbered (w : Chronicle) : Prop where
  orderly : w.engine.Orderly
  current : ∀ p o, w.engine.task? p = some o → w.operations[w.number p]? = some o
  distinct : ∀ p q, (w.engine.task? p).isSome → (w.engine.task? q).isSome →
    w.number p = w.number q → p = q
  bounded : ∀ x ∈ w.pages, ∀ n, x.1 = some n → n < w.operations.length

theorem Numbered.lt (hw : w.Numbered) {p : Party} {o : Operation}
    (ho : w.engine.task? p = some o) : w.number p < w.operations.length :=
  (List.getElem?_eq_some_iff.mp (hw.current p o ho)).1

theorem noted_page {t : Engine} (h : Engine.act a w.engine = some t) :
    t.client.journal = (w.page t).noted ++ w.engine.client.journal := by
  obtain ⟨os, hos⟩ := (Engine.touched_act h).journal
  have hlen : t.client.journal.length - w.engine.client.journal.length = os.length := by
    rw [hos, List.length_append, Nat.add_sub_cancel]
  change _ = t.client.journal.take _ ++ _
  rw [hlen, hos, List.take_left]

/-- How a history goes on: with a new operation, with a move of one, or with a page that no operation
is changed by. -/
inductive Continued (w : Chronicle) (t : Engine) : Chronicle → Prop
  | begun (p : Party) (o : Order) (free : w.engine.task? p = none)
    (task : t.task? p = some (Operation.start o w.engine.client).1)
    (client : t.client = (Operation.start o w.engine.client).2)
    (others : ∀ q, q ≠ p → t.task? q = w.engine.task? q) :
    Continued w t
      { engine := t
        pages := (some w.operations.length, w.page t) :: w.pages
        operations := w.operations ++ [(Operation.start o w.engine.client).1]
        number := Function.update w.number p w.operations.length }
  | moved (p : Party) (m : Move) (o o' : Operation) (task : w.engine.task? p = some o)
    (move : o.move m p w.engine.client = some (o', t.client))
    (after : t.task? p = some o' ∨ t.task? p = none)
    (others : ∀ q, q ≠ p → t.task? q = w.engine.task? q) :
    Continued w t
      { w with
        engine := t
        pages := (some (w.number p), w.page t) :: w.pages
        operations := w.operations.set (w.number p) o' }
  | beside (n : Option Nat)
    (hand : ∀ i, n = some i → ∃ o, w.engine.task? .remover = some o ∧ w.number .remover = i)
    (kept : ∀ q, t.task? q = w.engine.task? q ∨ t.task? q = none)
    (aside : ∀ x ∈ (w.page t).noted, x.isAside = true) :
    Continued w t { w with engine := t, pages := (n, w.page t) :: w.pages }

theorem set_eq_self {l : List Operation} {n : Nat} {o : Operation} (h : l[n]? = some o) :
    l.set n o = l := by
  refine List.ext_getElem? fun i => ?_
  rw [List.getElem?_set]
  split
  · rename_i hi
    subst hi
    obtain ⟨hlt, _⟩ := List.getElem?_eq_some_iff.mp h
    rw [if_pos hlt, h]
  · rfl

theorem continued (hw : w.Numbered) (h : act a w = some v) :
    ∃ t, Engine.act a w.engine = some t ∧ Continued w t v := by
  obtain ⟨t, ht, rfl⟩ := Option.map_eq_some_iff.mp h
  have hjournal := noted_page ht
  refine ⟨t, ht, ?_⟩
  cases Engine.course hw.orderly ht with
  | started p o party free task client others =>
    simp only [record, party, free, task]
    exact .begun p o free task client others
  | moved p m o o' party task move after others =>
    have hlast : (t.task? p).getD (if p = .listener then .session .done else o) = o' := by
      rcases after with after | ⟨rfl, rfl, after⟩
      · rw [after]
        rfl
      · rw [after]
        rfl
    simp only [record, party, task, hlast]
    exact .moved p m o o' task move (after.imp id fun h => h.2.2) others
  | beside kept unhanded aside =>
    obtain ⟨os, hos, haside⟩ := aside
    obtain rfl := List.append_cancel_right (hos.symm.trans hjournal)
    have hkept : ∀ q, t.task? q = w.engine.task? q ∨ t.task? q = none := fun q =>
      (kept q).imp id And.left
    have hnone := Continued.beside (w := w) (t := t) none (by simp) hkept haside
    cases hp : a.party? w.engine with
    | none =>
      simp only [record, hp]
      exact hnone
    | some p =>
      cases ho : w.engine.task? p with
      | none =>
        have hfree : t.task? p = none := by
          rcases kept p with hk | hk
          · rw [hk, ho]
          · exact hk.1
        simp only [record, hp, ho, hfree]
        exact hnone
      | some o =>
        have hsame : (t.task? p).getD (if p = .listener then .session .done else o) = o := by
          rcases kept p with hk | ⟨hk, hl⟩
          · rw [hk, ho]
            rfl
          · rw [hk, if_neg (hl hp)]
            rfl
        simp only [record, hp, ho, hsame, set_eq_self (hw.current p o ho)]
        have hremover : p = .remover := by
          by_contra hne
          rw [unhanded p hp hne] at ho
          cases ho
        subst hremover
        exact .beside _ (fun i hi => ⟨o, ho, Option.some.inj hi⟩) hkept haside

theorem own_of_pages {x : Option Nat × Page} (h : v.pages = x :: w.pages) (n : Nat) :
    v.own n = if x.1 = some n then x.2 :: w.own n else w.own n := by
  rw [own, h, List.filter_cons]
  by_cases hx : x.1 = some n
  · simp [hx, own]
  · simp [hx, own]

theorem Continued.numbered {t : Engine} (hw : w.Numbered) (ht : t.Orderly)
    (h : Continued w t v) : v.Numbered := by
  cases h with
  | begun p o free task client others =>
    have hold : ∀ q, q ≠ p → (t.task? q).isSome → w.number q < w.operations.length := by
      intro q hq hs
      obtain ⟨o', ho'⟩ := Option.isSome_iff_exists.mp hs
      exact hw.lt (others q hq ▸ ho')
    refine ⟨ht, fun q o' hq => ?_, fun q q' hq hq' he => ?_, fun x hx n hn => ?_⟩
    · by_cases hqp : q = p
      · subst hqp
        rw [task] at hq
        simpa using hq
      · dsimp only at hq ⊢
        rw [Function.update_of_ne hqp, List.getElem?_append_left (hold q hqp (by simp [hq]))]
        exact hw.current q o' (others q hqp ▸ hq)
    · by_cases hqp : q = p
      · by_cases hqp' : q' = p
        · rw [hqp, hqp']
        · have hlt := hold q' hqp' hq'
          simp only [hqp, Function.update_self, Function.update_of_ne hqp'] at he
          omega
      · by_cases hqp' : q' = p
        · have hlt := hold q hqp hq
          simp only [hqp', Function.update_self, Function.update_of_ne hqp] at he
          omega
        · simp only [Function.update_of_ne hqp, Function.update_of_ne hqp'] at he
          exact hw.distinct q q' (others q hqp ▸ hq) (others q' hqp' ▸ hq') he
    · simp only [List.length_append, List.length_singleton]
      rcases List.mem_cons.mp hx with rfl | hx
      · have hlen : w.operations.length = n := Option.some.inj hn
        omega
      · exact Nat.lt_succ_of_lt (hw.bounded x hx n hn)
  | moved p m o o' task move after others =>
    have hold : ∀ q, (t.task? q).isSome → (w.engine.task? q).isSome := by
      intro q hs
      by_cases hqp : q = p
      · rw [hqp, task]
        rfl
      · exact others q hqp ▸ hs
    refine ⟨ht, fun q o₁ hq => ?_, fun q q' hq hq' he => hw.distinct q q' (hold q hq) (hold q' hq') he,
      fun x hx n hn => ?_⟩
    · by_cases hqp : q = p
      · subst hqp
        obtain rfl : o' = o₁ := by
          rcases after with after | after
          · exact Option.some.inj (after.symm.trans hq)
          · rw [after] at hq
            cases hq
        exact List.getElem?_set_self (hw.lt task)
      · have hne : w.number p ≠ w.number q := fun he =>
          hqp (hw.distinct p q (by simp [task]) (hold q (by simp [hq])) he).symm
        rw [List.getElem?_set_ne hne]
        exact hw.current q o₁ (others q hqp ▸ hq)
    · rw [List.length_set]
      rcases List.mem_cons.mp hx with rfl | hx
      · exact Option.some.inj hn ▸ hw.lt task
      · exact hw.bounded x hx n hn
  | beside n hand kept aside =>
    have hold : ∀ q o, t.task? q = some o → w.engine.task? q = some o := by
      intro q o hq
      rcases kept q with hk | hk
      · rw [← hk, hq]
      · rw [hk] at hq
        cases hq
    have hsome : ∀ q, (t.task? q).isSome → (w.engine.task? q).isSome := by
      intro q hs
      obtain ⟨o, ho⟩ := Option.isSome_iff_exists.mp hs
      rw [hold q o ho]
      rfl
    refine ⟨ht, fun q o hq => hw.current q o (hold q o hq),
      fun q q' hq hq' he => hw.distinct q q' (hsome q hq) (hsome q' hq') he, fun x hx i hi => ?_⟩
    rcases List.mem_cons.mp hx with rfl | hx
    · obtain ⟨o, ho, rfl⟩ := hand i hi
      exact hw.lt ho
    · exact hw.bounded x hx i hi

theorem Numbered.act (hw : w.Numbered) (h : act a w = some v) : v.Numbered := by
  obtain ⟨t, ht, hv⟩ := continued hw h
  exact hv.numbered hw (Engine.orderly_act hw.orderly ht)

/-- A relation between operations and their pages that holds when an operation is begun, and that its
moves keep, holds throughout a run. A removal in the background is told of on other pages as well. -/
theorem tells_act {Tells : Operation → List Page → Prop} (hw : w.Numbered) (h : act a w = some v)
    (hstart : ∀ o noted posted, (Operation.start o w.engine.client).2.journal =
      noted ++ w.engine.client.journal → Tells (Operation.start o w.engine.client).1
        [⟨w.engine.client.registry, noted, posted⟩])
    (hmove : ∀ p m o o' c noted posted ps, w.engine.task? p = some o →
      o.move m p w.engine.client = some (o', c) → c.journal = noted ++ w.engine.client.journal →
      Tells o ps → Tells o' (⟨w.engine.client.registry, noted, posted⟩ :: ps))
    (hbeside : ∀ r st ps (pg : Page), (∀ x ∈ pg.noted, x.isAside = true) →
      Tells (.removal r st) ps → Tells (.removal r st) (pg :: ps))
    (ih : ∀ n o, w.operations[n]? = some o → Tells o (w.own n)) :
    ∀ n o, v.operations[n]? = some o → Tells o (v.own n) := by
  obtain ⟨t, ht, hv⟩ := continued hw h
  have hjournal := noted_page ht
  intro n o hn
  cases hv with
  | begun p o₁ free task client others =>
    rw [own_of_pages rfl]
    by_cases hlast : w.operations.length = n
    · have hnone : w.own n = [] := by
        rw [own, List.map_eq_nil_iff, List.filter_eq_nil_iff]
        intro x hx he
        have hlt := hw.bounded x hx n (of_decide_eq_true he)
        omega
      subst hlast
      rw [if_pos rfl, hnone]
      rw [List.getElem?_concat_length] at hn
      rw [← Option.some.inj hn]
      exact hstart o₁ _ _ (client ▸ hjournal)
    · have hlt : n < w.operations.length := by
        obtain ⟨hlt, _⟩ := List.getElem?_eq_some_iff.mp hn
        rw [List.length_append, List.length_singleton] at hlt
        omega
      rw [if_neg fun he => hlast (Option.some.inj he)]
      exact ih n o (by rwa [List.getElem?_append_left hlt] at hn)
  | moved p m o₁ o' task move after others =>
    rw [own_of_pages rfl]
    by_cases hp : w.number p = n
    · subst hp
      rw [if_pos rfl]
      rw [List.getElem?_set_self (hw.lt task)] at hn
      rw [← Option.some.inj hn]
      exact hmove p m o₁ o' t.client _ _ _ task move hjournal (ih _ o₁ (hw.current p o₁ task))
    · rw [if_neg fun he => hp (Option.some.inj he)]
      exact ih n o (by rwa [List.getElem?_set_ne hp] at hn)
  | beside i hand kept aside =>
    rw [own_of_pages rfl]
    split
    · rename_i he
      obtain ⟨o', ho', rfl⟩ := hand n he
      obtain ⟨r, st, rfl⟩ := Engine.task?_remover ho'
      obtain rfl := Option.some.inj ((hw.current _ _ ho').symm.trans hn)
      exact hbeside r st _ _ aside (ih _ _ hn)
    · exact ih n o hn

theorem Continued.turned {t : Engine} (h : Continued w t v) :
    v.engine = t ∧ ∃ n, v.pages = (n, w.page t) :: w.pages := by
  cases h with
  | begun => exact ⟨rfl, _, rfl⟩
  | moved => exact ⟨rfl, _, rfl⟩
  | beside n => exact ⟨rfl, n, rfl⟩

def Step (w v : Chronicle) : Prop :=
  ∃ a, act a w = some v

/-- A step of a run on which the client is open. -/
def Onward (w v : Chronicle) : Prop :=
  w.engine.client.closed = false ∧ Step w v

theorem numbered_opening {settings : Settings} {feed : Option Nat} {s : Engine}
    (hs : Engine.build settings feed = .built s) : (opening s).Numbered := by
  obtain ⟨d, r, _, _, rfl⟩ := Engine.build_eq hs
  have hnone : ∀ p, (opening (Engine.initial settings d r feed)).engine.task? p = none := by
    intro p
    cases p with
    | caller id => rfl
    | remover => rfl
    | listener => cases feed <;> rfl
  exact ⟨Engine.orderly_initial settings d r feed, by simp [hnone], by simp [hnone],
    fun x hx => absurd hx List.not_mem_nil⟩

/-- What became of each registration of an entry, and which operation brought it about. -/
def fates (w : Chronicle) (e : Entry) : List (Option (Option Nat × Cause)) :=
  Occurrence.fates e w.occurrences

/-- The pages tell the truth about the registry. -/
structure Faithful (w : Chronicle) : Prop where
  sober : Occurrence.Sober (w.occurrences.map Prod.snd)
  live : ∀ e, e ∈ w.engine.client.registry ↔ Occurrence.Live e (w.occurrences.map Prod.snd)

theorem occurrences_of_pages {x : Option Nat × Page} (h : v.pages = x :: w.pages) :
    v.occurrences = x.2.noted.map (Prod.mk x.1) ++ w.occurrences := by
  rw [occurrences, h]
  rfl

theorem live_append {e : Entry} {os js : List Occurrence} (h : ∀ o ∈ js, o.armed? = none) :
    Occurrence.Live e (os ++ js) ↔ Occurrence.Live e os := by
  induction os with
  | nil =>
    refine ⟨fun hl => ?_, False.elim⟩
    induction js with
    | nil => exact hl
    | cons o js ih =>
      rcases hl with hl | hl
      · rw [h o (.head _)] at hl
        cases hl
      · exact ih (fun o' ho' => h o' (.tail _ ho')) hl.2
  | cons o os ih => rw [List.cons_append, Occurrence.Live, Occurrence.Live, ih]

theorem sober_append {os js : List Occurrence} (h : ∀ o ∈ js, o.armed? = none)
    (hs : Occurrence.Sober (os ++ js)) : Occurrence.Sober os := by
  induction os with
  | nil => trivial
  | cons o os ih =>
    obtain ⟨hnew, hnodup, hlive, hrest⟩ := hs
    exact ⟨fun e he hl => hnew e he ((live_append h).mpr hl), hnodup,
      fun e he => (live_append h).mp (hlive e he), ih hrest⟩

theorem Onward.steps {w v : Chronicle} (h : Relation.ReflTransGen Onward w v) :
    Relation.ReflTransGen Step w v := by
  induction h with
  | refl => exact .refl
  | tail _ hstep ih => exact ih.tail hstep.2

theorem journal_run {s : Engine} (hs : (opening s).Numbered)
    (h : Relation.ReflTransGen Step (opening s) w) :
    w.Numbered ∧ w.engine.client.journal = w.occurrences.map Prod.snd ++ s.client.journal ∧
      s.client.Touched w.engine.client := by
  induction h with
  | refl => exact ⟨hs, rfl, .refl _⟩
  | tail _ hstep ih =>
    obtain ⟨hw, hj, ht⟩ := ih
    obtain ⟨a, ha⟩ := hstep
    obtain ⟨t, hact, hv⟩ := continued hw ha
    obtain ⟨rfl, n, hpages⟩ := hv.turned
    refine ⟨hw.act ha, ?_, ht.trans (Engine.touched_act hact)⟩
    rw [noted_page hact, hj, occurrences_of_pages hpages]
    simp [Function.comp_def]

theorem armed_initial (settings : Settings) (d : Queue Delivery) (r : Queue BackgroundRemoval)
    (feed : Option Nat) :
    ∀ o ∈ (Engine.initial settings d r feed).client.journal, o.armed? = none := by
  intro o ho
  simp only [Engine.initial] at ho
  split at ho
  · rw [List.mem_singleton.mp ho]
    rfl
  · cases ho

theorem length_fates_run {settings : Settings} {feed : Option Nat} {s : Engine}
    (hs : Engine.build settings feed = .built s)
    (h : Relation.ReflTransGen Step (opening s) w) (e : Entry) :
    (w.fates e).length = w.engine.client.armed.count e := by
  obtain ⟨_, hj, _⟩ := journal_run (numbered_opening hs) h
  obtain ⟨d, r, _, _, rfl⟩ := Engine.build_eq hs
  have hnone : (Engine.initial settings d r feed).client.journal.filterMap Occurrence.armed? = [] :=
    List.filterMap_eq_nil_iff.mpr (armed_initial settings d r feed)
  rw [fates, Occurrence.length_fates, Client.armed, hj, List.filterMap_append, hnone,
    List.append_nil, Multiset.coe_count]

theorem faithful_run {settings : Settings} {feed : Option Nat} {s : Engine}
    (hs : Engine.build settings feed = .built s)
    (h : Relation.ReflTransGen Step (opening s) w) : w.Faithful := by
  obtain ⟨_, hj, ht⟩ := journal_run (numbered_opening hs) h
  obtain ⟨d, r, _, _, rfl⟩ := Engine.build_eq hs
  have hinert := armed_initial settings d r feed
  have hopening : (Engine.initial settings d r feed).client.Truthful := by
    have hsober : Occurrence.Sober (Engine.initial settings d r feed).client.journal := by
      simp only [Engine.initial]
      split
      · exact ⟨by simp [Occurrence.armed?], List.nodup_nil, by simp [Occurrence.consumptions],
          trivial⟩
      · trivial
    refine ⟨hsober, fun e => iff_of_false (fun he => ?_) fun hl => ?_⟩
    · have hnone : e.subscriber ∈ Registry.empty.holders e.path e.kind := he
      rw [Registry.holders_empty] at hnone
      cases hnone
    · rw [← List.nil_append (Engine.initial settings d r feed).client.journal,
        live_append hinert] at hl
      exact hl
  have htrue := hopening.touched ht
  rw [Client.truthful_iff, hj] at htrue
  exact ⟨sober_append hinert htrue.1, fun e => (htrue.2 e).trans (live_append hinert)⟩

/-- The history after these actions, if each was possible on an open client. -/
def follow (as : List Action) (w : Chronicle) : Option Chronicle :=
  as.foldlM (fun w a => if w.engine.client.closed then none else act a w) w

theorem onward_of_follow {as : List Action} (h : follow as w = some v) :
    Relation.ReflTransGen Onward w v := by
  refine run_of_foldlM (fun a _ w v hv => ?_) h
  obtain ⟨ho, hv⟩ := Option.ite_none_left_eq_some.mp hv
  exact ⟨by simpa using ho, a, hv⟩

end Chronicle

end NodeWatch
