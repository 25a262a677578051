import NodeWatch.Proofs.RemovalProgress

/-! Removals that are awaited by their callers, one after another, with a server that goes by the
requests it was given. Each of them comes to what it was to come to when it began, and leaves the
client ready for the next. -/

namespace NodeWatch

/-- Nobody is given a place when nobody is in line. -/
theorem Queue.vacant_take {α : Type} {q q' : Queue α} {x : α} (h : q.take? = some (x, q'))
    (hv : q.line = [] ∧ q.admitted = []) : q'.line = [] ∧ q'.admitted = [] := by
  simp only [take?] at h
  split at h
  · cases h
  · obtain ⟨_, rfl⟩ := Prod.mk.inj (Option.some.inj h)
    simp [grant, hv]

namespace Engine

/-- The requests up to the one whose answer a party awaits in a slot, where its requests are the last
that were made. -/
def upTo (s : Engine) (p : Party) (slot : Nat) : List Request :=
  s.client.history.take (s.client.history.length - (s.waits p).length + slot + 1)

/-- The client is in use, and nobody waits to queue a delivery. -/
structure Ready (s : Engine) : Prop extends s.Still where
  held : s.held = true

variable {s t : Engine} {id : Nat} {o : Operation} {m : Move}

theorem act_of_call (h : s.call? id = some o) {o' : Operation} {c : Client}
    (hm : o.move m (.caller id) s.client = some (o', c)) :
    act (actionOf (.caller id) m) s = some (s.setCall id o' c) := by
  cases m <;> simp_all [act, actionOf, Engine.resume, Engine.answer, Engine.timeOut, Engine.retry,
    updateCall, Operation.move]

theorem moved_of_call (h : s.call? id = some o) (ha : act (actionOf (.caller id) m) s = some t) :
    ∃ o', o.move m (.caller id) s.client = some (o', t.client) ∧ t = s.setCall id o' t.client := by
  have hu : updateCall id (fun o c => o.move m (.caller id) c) s = some t := by
    cases m <;> exact ha
  simp only [updateCall, h, Option.bind_eq_bind, Option.bind_some, Option.bind_eq_some_iff] at hu
  obtain ⟨⟨o', c⟩, hm, ht⟩ := hu
  obtain rfl := Option.some.inj ht
  exact ⟨o', hm, rfl⟩

theorem call?_setCall (h : s.call? id = some o) (o' : Operation) (c : Client) :
    (s.setCall id o' c).call? id = some o' := by
  have htask := task?_setCall s id o' c (.caller id)
  rw [if_pos rfl, show s.task? (.caller id) = some o from h] at htask
  exact htask

/-- As long as somebody could queue a delivery, the dispatch worker does nothing but to carry one
out. -/
theorem dispatched_of_heard (ho : s.client.closed = false) (hs : s.silent = false)
    {conduct : Client → Call → Conduct} (ha : act (.dispatch conduct) s = some t) :
    ∃ d q, s.client.deliveries.take? = some (d, q) ∧
      t = { s with client := { s.client with deliveries := q }.deliver conduct d } := by
  cases act_change ho ha with
  | dispatched _ d q _ take => exact ⟨d, q, take, rfl⟩
  | silenced _ silent =>
    rw [hs] at silent
    cases silent
  | moved q m _ _ _ action => cases m <;> cases action
  | stirred _ action => rcases action with h | h <;> cases h

theorem not_silent_of_held (h : s.held = true) : s.silent = false := by
  simp [silent, orphaned, h]

/-- Nothing has changed for a removal when a delivery was carried out. -/
theorem Ready.dispatched (h : s.Ready) {conduct : Client → Call → Conduct}
    (hopen : ∀ c x, .close ∉ (conduct c x).deeds) {d : Delivery} {q : Queue Delivery}
    (hq : s.client.deliveries.take? = some (d, q)) :
    { s with client := { s.client with deliveries := q }.deliver conduct d }.Ready ∧
      { s.client with deliveries := q }.Stays
        ({ s.client with deliveries := q }.deliver conduct d) := by
  have hstays := Client.Stays.deliver hopen { s.client with deliveries := q } d
  obtain ⟨hline, hadmitted⟩ := Queue.vacant_take hq ⟨h.line, h.admitted⟩
  refine ⟨⟨⟨h.orderly, hstays.closed.trans h.opened, h.dispatching, ?_, ?_, ?_, ?_⟩, h.held⟩, hstays⟩
  · exact hstays.deliveries.symm ▸ (Queue.isOpen_take hq).trans h.isOpen
  · exact hstays.deliveries.symm ▸ Queue.capacity_take hq ▸ h.capacity
  · exact hstays.deliveries.symm ▸ hline
  · exact hstays.deliveries.symm ▸ hadmitted

end Engine

open Client (trace queuings InStep Alike Mirrors)
open Removal (Stage finale perform Sound confirmations)

/-- An engine while a removal is awaited, and the deliveries that were carried out meanwhile, the
earliest first. -/
structure Awaiting where
  engine : Engine
  carried : List Delivery

/-- What may come next while a party awaits a removal. -/
inductive Attends (reply : Transport) (p : Party) (w : Awaiting) : Awaiting → Prop
  | went (t : Engine) (act : Engine.act (.resume p) w.engine = some t) :
    Attends reply p w { w with engine := t }
  | answered (slot : Nat) (t : Engine)
    (act : Engine.act (.answer p slot (reply (w.engine.upTo p slot))) w.engine = some t) :
    Attends reply p w { w with engine := t }
  | dispatched (conduct : Client → Call → Conduct) (t : Engine)
    (opened : ∀ c x, .close ∉ (conduct c x).deeds)
    (act : Engine.act (.dispatch conduct) w.engine = some t) :
    Attends reply p w ⟨t, w.carried ++ w.engine.client.deliveries.items.take 1⟩

/-- A removal that was awaited: what was asked for, what came of it, and what happened in the
meantime, the latest first. -/
structure Episode where
  request : RemovalRequest
  result : Except Fault (List Entry)
  occurrences : List Occurrence

/-- Removals are awaited one after another. -/
inductive Foreground (reply : Transport) : Engine → List Episode → Engine → Prop
  | rest (s : Engine) : Foreground reply s [] s
  | dispatched {s t u : Engine} {es : List Episode} (conduct : Client → Call → Conduct)
    (opened : ∀ c x, .close ∉ (conduct c x).deeds)
    (act : Engine.act (.dispatch conduct) s = some t) (rest : Foreground reply t es u) :
    Foreground reply s es u
  | removed {s t v w : Engine} {u : Awaiting} {r : RemovalRequest}
    {result : Except Fault (List Entry)} {os : List Occurrence} {es : List Episode}
    (begun : Engine.act (.begin (.remove r)) s = some t)
    (run : Relation.ReflTransGen (Attends reply (.caller s.nextCall)) ⟨t, []⟩ u)
    (outcome : u.engine.outcome? s.nextCall = some (.removal result))
    (collected : Engine.act (.collect s.nextCall) u.engine = some v)
    (meantime : v.client.journal = os ++ s.client.journal) (rest : Foreground reply v es w) :
    Foreground reply s (⟨r, result, os⟩ :: es) w

/-- Only confirmations were noted as queued since, and what was carried out since and what is on the
queue is what was on the queue at first and these confirmations, in the same order. -/
def Confirms (c₀ : Client) (ds : List Delivery) (c : Client) : Prop :=
  ∃ os es, c.journal = os ++ c₀.journal ∧ queuings os = confirmations es ∧
    ds ++ c.deliveries.items = c₀.deliveries.items ++ confirmations es

theorem Confirms.posted {c₀ c c' : Client} {ds : List Delivery} (h : Confirms c₀ ds c)
    (gone : List Entry) (hp : c.Posts c' (confirmations gone)) : Confirms c₀ ds c' := by
  obtain ⟨os, es, hj, hq, hitems⟩ := h
  obtain ⟨os', hj', hq', _, hitems'⟩ := hp
  have hmap : confirmations (es ++ gone) = confirmations es ++ confirmations gone := List.map_append
  refine ⟨os' ++ os, es ++ gone, ?_, ?_, ?_⟩
  · rw [hj', hj, List.append_assoc]
  · rw [Client.queuings_append, hq, hq', hmap]
  · rw [hitems', ← List.append_assoc, hitems, hmap, List.append_assoc]

theorem Confirms.carried {c₀ c c' : Client} {ds : List Delivery} (h : Confirms c₀ ds c) {d : Delivery}
    {q : Queue Delivery} (hq : c.deliveries.take? = some (d, q))
    (hs : { c with deliveries := q }.Stays c') :
    Confirms c₀ (ds ++ c.deliveries.items.take 1) c' := by
  obtain ⟨os, es, hj, hqueued, hitems⟩ := h
  obtain ⟨js, hjs, hsilent, _⟩ := hs.journal
  refine ⟨js ++ os, es, ?_, ?_, ?_⟩
  · rw [hjs, List.append_assoc]
    exact congrArg (js ++ ·) hj
  · rw [Client.queuings_silent hsilent, hqueued]
  · rw [← hitems, Queue.items_take hq, hs.deliveries, List.append_assoc]
    rfl

/-- How an awaited removal stands. -/
structure Attended (reply : Transport) (r : RemovalRequest) (s₀ : Engine) (id : Nat) (w : Awaiting)
    (st : Stage) : Prop where
  orderly : w.engine.Orderly
  held : w.engine.held = true
  dispatching : w.engine.dispatching = true
  call : w.engine.call? id = some (.removal r st)
  calm : w.engine.client.Calm (.caller id)
  vacant : Removal.offers st = false →
    w.engine.client.deliveries.line = [] ∧ w.engine.client.deliveries.admitted = []
  sound : Sound reply r st w.engine.client
  alike : Alike [] [] (finale reply r st w.engine.client) (perform reply r s₀.client)
  told : Confirms s₀.client w.carried w.engine.client

namespace Attended

variable {reply : Transport} {r : RemovalRequest} {s₀ s t : Engine} {w w' : Awaiting} {id : Nat}
  {st st' : Stage} {c : Client}

theorem begun (reply : Transport) (hs : s.Ready) (r : RemovalRequest)
    (h : Engine.act (.begin (.remove r)) s = some t) :
    Attended reply r s s.nextCall ⟨t, []⟩ (Removal.start r s.client).1 := by
  have horderly := Engine.orderly_act hs.orderly h
  simp only [Engine.act, Engine.begin, hs.held, if_true] at h
  obtain rfl := Option.some.inj h
  have hstart := Operation.start_remove hs.opened r
  have hundisturbed := Removal.undisturbed_start r s.client
  have hdeliveries := hundisturbed.deliveries
  rw [hstart] at horderly ⊢
  refine ⟨horderly, rfl, hs.dispatching, ?_, ⟨?_, ?_, ?_, ?_⟩,
    fun _ => ?_, Removal.sound_start reply r s.client, ⟨rfl, Client.mirrors_refl _⟩, ?_⟩
  · have htask := Engine.task?_begun hs.orderly (.removal r (Removal.start r s.client).1)
      (Removal.start r s.client).2 (.caller s.nextCall)
    rwa [if_pos rfl] at htask
  · exact hundisturbed.closed.trans hs.opened
  · exact hdeliveries.symm ▸ hs.isOpen
  · exact hdeliveries.symm ▸ hs.capacity
  · exact hdeliveries.symm ▸ .inl ⟨hs.line, .inl hs.admitted⟩
  · exact hdeliveries.symm ▸ ⟨hs.line, hs.admitted⟩
  · have hinitial : Confirms s.client [] s.client := ⟨[], [], rfl, rfl, (List.append_nil _).symm⟩
    exact hinitial.posted [] (Removal.posts_start r s.client)

theorem went (h : Attended reply r s₀ id w st)
    (hm : Removal.resume r (.caller id) st w.engine.client = some (st', c)) :
    Attended reply r s₀ id { w with engine := w.engine.setCall id (.removal r st') c } st' := by
  obtain ⟨halike, hsound, hcalm⟩ := Removal.alike_resume h.calm h.sound hm
  obtain ⟨gone, hposts⟩ := Removal.posts_resume h.calm hm
  refine ⟨?_, h.held, h.dispatching, Engine.call?_setCall h.call _ _, hcalm, ?_, hsound,
    halike.trans h.alike, h.told.posted gone hposts⟩
  · exact Engine.orderly_of_calls h.orderly (Engine.map_fst_setCall w.engine id _ _ ▸ .refl _) rfl
  · exact Removal.vacant_resume h.calm h.vacant hm

theorem waits_eq (h : Attended reply r s₀ id w st) :
    w.engine.waits (.caller id) = Removal.waits r st := by
  rw [Engine.waits, h.call]
  rfl

theorem answered (h : Attended reply r s₀ id w st) {slot : Nat}
    (hm : Removal.answer r slot (reply (w.engine.upTo (.caller id) slot)) st w.engine.client =
      some (st', c)) :
    Attended reply r s₀ id { w with engine := w.engine.setCall id (.removal r st') c } st' := by
  obtain ⟨hdeliveries, hclosed, hoffers⟩ := Removal.steady_answer hm
  have hposts := Client.Posts.of_thins (Removal.thins_answer hm)
  rw [Engine.upTo, h.waits_eq] at hm
  obtain ⟨halike, hsound⟩ := Removal.alike_answer h.sound hm
  refine ⟨?_, h.held, h.dispatching, Engine.call?_setCall h.call _ _,
    h.calm.of_eq hclosed hdeliveries, fun _ => ?_, hsound, halike.trans h.alike,
    h.told.posted [] hposts⟩
  · exact Engine.orderly_of_calls h.orderly (Engine.map_fst_setCall w.engine id _ _ ▸ .refl _) rfl
  · exact hdeliveries.symm ▸ h.vacant hoffers

theorem dispatched (h : Attended reply r s₀ id w st) {conduct : Client → Call → Conduct}
    (hopen : ∀ c x, .close ∉ (conduct c x).deeds) {d : Delivery} {q : Queue Delivery}
    (hq : w.engine.client.deliveries.take? = some (d, q)) :
    Attended reply r s₀ id
      ⟨{ w.engine with client := { w.engine.client with deliveries := q }.deliver conduct d },
        w.carried ++ w.engine.client.deliveries.items.take 1⟩ st := by
  have hstays := Client.Stays.deliver hopen { w.engine.client with deliveries := q } d
  have hsame : Client.Mirrors ({ w.engine.client with deliveries := q }.deliver conduct d)
      w.engine.client := hstays.mirrors.trans (Client.mirrors_of_eq rfl rfl rfl)
  refine ⟨h.orderly, h.held, h.dispatching, h.call,
    (h.calm.take hq).of_eq hstays.closed hstays.deliveries, fun ho => ?_, ?_,
    (Removal.alike_finale reply r st hsame).trans h.alike, h.told.carried hq hstays⟩
  · exact hstays.deliveries.symm ▸ Queue.vacant_take hq (h.vacant ho)
  · exact Removal.sound_congr hsame.history h.sound

theorem step (h : Attended reply r s₀ id w st) (hstep : Attends reply (.caller id) w w') :
    ∃ st', Attended reply r s₀ id w' st' := by
  cases hstep with
  | went t act =>
    obtain ⟨o', hm, ht⟩ := Engine.moved_of_call (m := .resume) h.call act
    cases Operation.moves hm with
    | removing _ _ st' _ resume =>
      rw [ht]
      exact ⟨st', h.went resume⟩
  | answered slot t act =>
    obtain ⟨o', hm, ht⟩ := Engine.moved_of_call (m := .answer slot _) h.call act
    cases Operation.moves hm with
    | settling _ _ _ _ st' _ answer =>
      rw [ht]
      exact ⟨st', h.answered answer⟩
  | dispatched conduct t opened act =>
    obtain ⟨d, q, hq, rfl⟩ :=
      Engine.dispatched_of_heard h.calm.opened (Engine.not_silent_of_held h.held) act
    exact ⟨st, h.dispatched opened hq⟩

theorem run (h : Attended reply r s₀ id w st)
    (hrun : Relation.ReflTransGen (Attends reply (.caller id)) w w') :
    ∃ st', Attended reply r s₀ id w' st' := by
  induction hrun with
  | refl => exact ⟨st, h⟩
  | tail _ hstep ih =>
    obtain ⟨st', hst'⟩ := ih
    exact hst'.step hstep

/-- What is left to be done of an awaited removal, and how far it is from a place in the queue. -/
def rank (s : Engine) (st : Stage) : (Nat ×ₗ Nat) ×ₗ Nat :=
  toLex (st.rank, ExpiryRun.queueRank s.client)

theorem descends (h : Attended reply r s₀ id w st) (hd : ∀ x, st ≠ .done x) :
    ∃ w' st', Attends reply (.caller id) w w' ∧ Attended reply r s₀ id w' st' ∧
      rank w'.engine st' < rank w.engine st := by
  rcases Removal.proceeds h.calm h.sound hd with hfull | hgoes | hawaits
  · obtain ⟨hline, _, hitems⟩ := hfull
    obtain ⟨t, d, q, hact, htake, rfl, hq, _⟩ :=
      Engine.dispatch_of_items h.dispatching h.calm.opened hitems
    refine ⟨_, st, .dispatched _ _ (by simp) hact, h.dispatched (by simp) htake, ?_⟩
    exact Prod.Lex.toLex_lt_toLex.mpr (.inr ⟨rfl, (ExpiryRun.queueRank_take htake hq).2 _ hline⟩)
  · obtain ⟨st', c, hm, hless⟩ := hgoes
    have hmove : (Operation.removal r st).move .resume (.caller id) w.engine.client =
        some (.removal r st', c) := by simp [Operation.move, Operation.resume, hm]
    refine ⟨_, st', .went _ (Engine.act_of_call h.call hmove), h.went hm, ?_⟩
    rcases hless with hlt | ⟨rfl, hline, hadmitted, hqueued⟩
    · exact Prod.Lex.toLex_lt_toLex.mpr (.inl hlt)
    · refine Prod.Lex.toLex_lt_toLex.mpr (.inr ⟨rfl, ?_⟩)
      simp [ExpiryRun.queueRank, Engine.setCall, hline, hadmitted, hqueued]
  · obtain ⟨slot, hanswer⟩ := hawaits
    obtain ⟨st', c, hm, hlt⟩ := hanswer (reply (w.engine.upTo (.caller id) slot))
    have hmove : (Operation.removal r st).move
        (.answer slot (reply (w.engine.upTo (.caller id) slot))) (.caller id) w.engine.client =
          some (.removal r st', c) := by
      simp [Operation.move, Operation.answer, hm]
    refine ⟨_, st', .answered slot _ (Engine.act_of_call h.call hmove), h.answered hm, ?_⟩
    exact Prod.Lex.toLex_lt_toLex.mpr (.inl hlt)

/-- A removal that is awaited can always come to its end. -/
theorem completes (h : Attended reply r s₀ id w st) :
    ∃ w' result, Relation.ReflTransGen (Attends reply (.caller id)) w w' ∧
      Attended reply r s₀ id w' (.done result) := by
  induction hr : rank w.engine st using WellFoundedLT.induction generalizing w st with
  | _ n ih =>
    by_cases hd : ∃ x, st = .done x
    · obtain ⟨x, rfl⟩ := hd
      exact ⟨w, x, .refl, h⟩
    · obtain ⟨t, st', hstep, ht, hlt⟩ := h.descends (not_exists.mp hd)
      obtain ⟨u, result, hrun, hu⟩ := ih _ (hr ▸ hlt) ht rfl
      exact ⟨u, result, hrun.head hstep, hu⟩

theorem done_of_outcome (h : Attended reply r s₀ id w st) {result : Except Fault (List Entry)}
    (ho : w.engine.outcome? id = some (.removal result)) : st = .done result := by
  rw [Engine.outcome?, h.call, Option.bind_some] at ho
  cases st with
  | done x =>
    cases ho
    rfl
  | asking | confirming | checking | rearming => cases ho

/-- When the result of the removal is taken the client is ready again. -/
theorem collected (h : Attended reply r s₀ id w st) {result : Except Fault (List Entry)}
    (ho : w.engine.outcome? id = some (.removal result))
    (hact : Engine.act (.collect id) w.engine = some t) :
    t.Ready ∧ t.client = w.engine.client ∧ st = .done result := by
  obtain rfl := h.done_of_outcome ho
  obtain ⟨hline, hadmitted⟩ := h.vacant rfl
  have ht := Engine.orderly_act h.orderly hact
  obtain ⟨x, _, rfl⟩ := Option.map_eq_some_iff.mp hact
  exact ⟨⟨⟨ht, h.calm.opened, h.dispatching, h.calm.isOpen, h.calm.capacity, hline, hadmitted⟩,
    h.held⟩, rfl, rfl⟩

end Attended

/-- Whatever removals are awaited one after another, all of them come to an end. -/
theorem Foreground.exists_of_ready (reply : Transport) {s : Engine} (hs : s.Ready)
    (rs : List RemovalRequest) :
    ∃ es t, Foreground reply s es t ∧ es.map Episode.request = rs := by
  induction rs generalizing s with
  | nil => exact ⟨[], s, .rest s, rfl⟩
  | cons r rs ih =>
    obtain ⟨v, hbegun⟩ : ∃ v, Engine.act (.begin (.remove r)) s = some v := ⟨_, if_pos hs.held⟩
    obtain ⟨u, result, hrun, hu⟩ := (Attended.begun reply hs r hbegun).completes
    have houtcome : u.engine.outcome? s.nextCall = some (.removal result) := by
      rw [Engine.outcome?, hu.call]
      rfl
    obtain ⟨w, hcollected⟩ : ∃ w, Engine.act (.collect s.nextCall) u.engine = some w := by
      simp [Engine.act, Engine.collect, houtcome]
    obtain ⟨hready, hclient, _⟩ := hu.collected houtcome hcollected
    obtain ⟨os, _, hj, _⟩ := hu.told
    rw [← hclient] at hj
    obtain ⟨es, t, hrest, hes⟩ := ih hready
    refine ⟨⟨r, result, os⟩ :: es, t, ?_, congrArg (r :: ·) hes⟩
    exact .removed hbegun hrun houtcome hcollected hj hrest

end NodeWatch
