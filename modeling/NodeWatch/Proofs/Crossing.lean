import Mathlib.Logic.Relation
import NodeWatch.Proofs.SpotAgreement

/-! A client and a server whose messages may cross. The server handles a request at some time after
it is made, and its answer arrives at any later time; what happens at the server reaches the client
as a notification, which may be overtaken by anything. No session expires and no request fails. -/

namespace NodeWatch

open Session (Spot)

namespace Operation

/-- The operation waits, at this slot, for an answer to this request. -/
inductive Awaits : Operation → Nat → Request → Prop
  | arming (a : Arming) : Awaits (.arming a .asked) 0 (.register a.path a.read)
  | removing (r : RemovalRequest) (p : Removal.Plan) (answers : List (Option Answer)) (slot : Nat)
    (k : Kind) (unanswered : answers[slot]? = some none) (kind : p.server[slot]? = some k) :
    Awaits (.removal r (.asking p answers)) slot (.remove r.path k)
  | rearming (r : RemovalRequest) (k : Kind) (ks : List Kind) (o : Removal.Settlement) :
    Awaits (.removal r (.rearming k ks o)) 0 (.register r.path (.rearming k))

theorem awaits_of_waits {policy : BackoffPolicy} {o : Operation} {slot : Nat} {q : Request}
    {limit : Option Nat} (ho : ∀ st, o = .session st → st = .done)
    (h : (o.waits policy)[slot]? = some (some (.answer q limit))) : o.Awaits slot q := by
  cases o with
  | arming a st =>
    cases st with
    | asked =>
      cases slot with
      | zero =>
        simp only [waits, Arming.waits, List.getElem?_cons_zero, Option.some.injEq,
          Wait.answer.injEq] at h
        obtain ⟨rfl, _⟩ := h
        exact .arming a
      | succ n => simp [waits, Arming.waits] at h
    | done => simp [waits, Arming.waits] at h
  | removal r st =>
    cases st with
    | asking p answers =>
      simp only [waits, Removal.waits, List.getElem?_zipWith] at h
      split at h
      · rename_i k a hk ha
        cases a with
        | none =>
          simp only [Option.some.injEq, Wait.answer.injEq] at h
          obtain ⟨rfl, _⟩ := h
          exact .removing r p answers slot k ha hk
        | some a => simp at h
      · cases h
    | rearming k ks o =>
      cases slot with
      | zero =>
        simp only [waits, Removal.waits, List.getElem?_cons_zero, Option.some.injEq,
          Wait.answer.injEq] at h
        obtain ⟨rfl, _⟩ := h
        exact .rearming r k ks o
      | succ n => simp [waits, Removal.waits] at h
    | confirming | checking | done => simp [waits, Removal.waits] at h
  | session st =>
    obtain rfl := ho st rfl
    simp [waits, Session.waits] at h
  | enrolment | notification => simp [waits] at h

theorem Awaits.resume {o o' : Operation} {slot : Nat} {q : Request} {p : Party} {c c' : Client}
    (h : o.Awaits slot q) (hm : o.resume p c = some (o', c')) : o'.Awaits slot q := by
  cases h with
  | arming a => cases hm
  | removing r pl answers slot k unanswered kind =>
    obtain ⟨st', rfl, hr⟩ := of_part hm
    cases Removal.resumed hr with
    | asked pl answers k' next =>
      have hlt : slot < answers.length := (List.getElem?_eq_some_iff.mp unanswered).1
      exact .removing r pl _ slot k (by rw [List.getElem?_append_left hlt, unanswered]) kind
    | advanced pl answers empty =>
      rw [empty] at kind
      cases kind
  | rearming r k ks st => cases hm

theorem Awaits.answer {o o' : Operation} {slot slot' : Nat} {q : Request} {x : Answer}
    {c c' : Client} (h : o.Awaits slot q) (hne : slot ≠ slot')
    (hm : o.answer slot' x c = some (o', c')) : o'.Awaits slot q := by
  cases h with
  | arming a =>
    rw [Operation.answer, if_neg hne.symm] at hm
    cases hm
  | removing r pl answers slot k unanswered kind =>
    obtain ⟨st', rfl, hr⟩ := of_part hm
    have hset : (answers.set slot' (some x))[slot]? = some none := by
      rw [List.getElem?_set, if_neg hne.symm, unanswered]
    cases Removal.replied hr with
    | advanced pl answers awaited =>
      rcases Removal.advance_cases r pl (answers.set slot' (some x)) c with ⟨_, ha⟩ | ⟨as, has, _⟩
      · rw [ha]
        exact .removing r pl _ slot k hset kind
      · rw [has, List.getElem?_map] at hset
        cases hget : as[slot]? <;> simp [hget] at hset
  | rearming r k ks st =>
    obtain ⟨st', rfl, hr⟩ := of_part hm
    cases Removal.replied hr with
    | rearmed k ks st first => exact absurd first.symm hne

theorem Awaits.not_finished {o : Operation} {slot : Nat} {q : Request} (h : o.Awaits slot q) :
    ¬o.Finished := by
  cases h <;> exact fun hf => by cases hf

end Operation

/-- An order that is neither the news of an event nor of a change of the session. -/
def Order.isDirect : Order → Bool
  | .arm _ | .remove _ | .enrol _ => true
  | .notify _ | .session _ => false

/-- The answers on their way to the client, by party and slot. -/
abbrev Underway :=
  Party → Nat → Option Answer

def Underway.put (u : Underway) (p : Party) (slot : Nat) (x : Option Answer) : Underway :=
  Function.update u p (Function.update (u p) slot x)

theorem Underway.put_eq_some {u : Underway} {p p' : Party} {slot i : Nat} {x : Option Answer}
    {y : Answer} (h : u.put p slot x p' i = some y) :
    (p' = p ∧ i = slot ∧ x = some y) ∨ (¬(p' = p ∧ i = slot) ∧ u p' i = some y) := by
  simp only [Underway.put] at h
  by_cases hp : p' = p
  · subst hp
    rw [Function.update_self] at h
    by_cases hi : i = slot
    · subst hi
      rw [Function.update_self] at h
      exact .inl ⟨rfl, rfl, h⟩
    · rw [Function.update_of_ne hi] at h
      exact .inr ⟨fun he => hi he.2, h⟩
  · rw [Function.update_of_ne hp] at h
    exact .inr ⟨fun he => hp he.1, h⟩

theorem Underway.put_self (u : Underway) (p : Party) (slot : Nat) (x : Option Answer) :
    u.put p slot x p slot = x := by
  rw [Underway.put, Function.update_self, Function.update_self]

structure Crossing where
  engine : Engine
  watched : Set Spot
  underway : Underway
  /-- The notifications on their way to the client. -/
  notices : Multiset WatchedEvent

namespace Crossing

inductive Step (admits : Order → Prop) : Crossing → Crossing → Prop
  | ordered {w : Crossing} (o : Order) (t : Engine) (direct : o.isDirect = true)
    (admitted : admits o) (opened : w.engine.client.closed = false)
    (act : Engine.act (.begin o) w.engine = some t) : Step admits w { w with engine := t }
  | went {w : Crossing} (a : Engine.Action) (t : Engine) (own : a.isOwn = true)
    (opened : w.engine.client.closed = false) (act : Engine.act a w.engine = some t) :
    Step admits w { w with engine := t }
  | handled {w : Crossing} (p : Party) (slot : Nat) (q : Request) (limit : Option Nat)
    (x : Answer) (S : Set Spot)
    (awaited : (w.engine.waits p)[slot]? = some (some (.answer q limit)))
    (unanswered : w.underway p slot = none) (serves : Serves w.watched q x S)
    (unfailing : ∀ f, x = .error f → f.isNoWatcher = true) :
    Step admits w { w with watched := S, underway := w.underway.put p slot (some x) }
  | answered {w : Crossing} (p : Party) (slot : Nat) (x : Answer) (t : Engine)
    (sent : w.underway p slot = some x) (opened : w.engine.client.closed = false)
    (act : Engine.act (.answer p slot x) w.engine = some t) :
    Step admits w { w with engine := t, underway := w.underway.put p slot none }
  | fired {w : Crossing} (e : WatchedEvent) (admitted : admits (.notify e)) :
    Step admits w { w with watched := e.leaves w.watched, notices := e ::ₘ w.notices }
  | notified {w : Crossing} (e : WatchedEvent) (rest : Multiset WatchedEvent) (t : Engine)
    (notice : w.notices = e ::ₘ rest) (opened : w.engine.client.closed = false)
    (act : Engine.act (.begin (.notify e)) w.engine = some t) :
    Step admits w { w with engine := t, notices := rest }

/-- Every operation has come to its end and nothing is on its way. -/
structure Settled (w : Crossing) : Prop where
  atRest : w.engine.AtRest
  delivered : ∀ p i, w.underway p i = none
  noticed : w.notices = 0

/-- Every answer on its way is awaited, and no session event is being handled. -/
structure Sound (w : Crossing) : Prop where
  orderly : w.engine.Orderly
  calm : ∀ p st, (p, .session st) ∈ w.engine.tasks → st = .done
  awaited : ∀ p slot x, w.underway p slot = some x →
    ∃ o q, (p, o) ∈ w.engine.tasks ∧ o.Awaits slot q

/-- What a step does to the tasks of the client and to the messages. -/
inductive Passage (admits : Order → Prop) (w : Crossing) : Crossing → Prop
  | begun (t : Engine) (p : Party) (o : Order) (taken : List BackgroundRemoval)
    (source : taken = [] ∧ admits o ∨ ∃ b, taken = [b] ∧ o = .remove b.request)
    (direct : o.isDirect = true) (opened : w.engine.client.closed = false)
    (fresh : ∀ x ∈ w.engine.tasks, x.1 ≠ p)
    (tasks : t.tasks = (p, (Operation.start o w.engine.client).1) ::ₘ w.engine.tasks)
    (client : t.client = (Operation.start o w.engine.client).2)
    (handed : w.engine.handed = taken ++ t.handed) : Passage admits w { w with engine := t }
  | notified (t : Engine) (p : Party) (e : WatchedEvent) (rest : Multiset WatchedEvent)
    (notice : w.notices = e ::ₘ rest) (opened : w.engine.client.closed = false)
    (fresh : ∀ x ∈ w.engine.tasks, x.1 ≠ p)
    (tasks : t.tasks = (p, (Operation.start (.notify e) w.engine.client).1) ::ₘ w.engine.tasks)
    (client : t.client = (Operation.start (.notify e) w.engine.client).2)
    (handed : w.engine.handed = t.handed) :
    Passage admits w { w with engine := t, notices := rest }
  | resumed (t : Engine) (p : Party) (o o' : Operation) (rest : Multiset (Party × Operation))
    (before : w.engine.tasks = (p, o) ::ₘ rest)
    (move : o.resume p w.engine.client = some (o', t.client)) (after : t.tasks = (p, o') ::ₘ rest)
    (handed : t.handed = w.engine.handed ∨ ∃ b, o = .enrolment b .offering ∧
      o' = .enrolment b (.done (.ok ())) ∧ t.handed = w.engine.handed ++ [b]) :
    Passage admits w { w with engine := t }
  | replied (t : Engine) (p : Party) (slot : Nat) (x : Answer) (o o' : Operation)
    (rest : Multiset (Party × Operation)) (sent : w.underway p slot = some x)
    (before : w.engine.tasks = (p, o) ::ₘ rest)
    (move : o.answer slot x w.engine.client = some (o', t.client))
    (after : t.tasks = (p, o') ::ₘ rest) (handed : t.handed = w.engine.handed) :
    Passage admits w { w with engine := t, underway := w.underway.put p slot none }
  | handled (p : Party) (o : Operation) (slot : Nat) (q : Request) (x : Answer) (S : Set Spot)
    (task : (p, o) ∈ w.engine.tasks) (awaits : o.Awaits slot q)
    (unanswered : w.underway p slot = none) (serves : Serves w.watched q x S)
    (unfailing : ∀ f, x = .error f → f.isNoWatcher = true) :
    Passage admits w { w with watched := S, underway := w.underway.put p slot (some x) }
  | fired (e : WatchedEvent) (admitted : admits (.notify e)) :
    Passage admits w { w with watched := e.leaves w.watched, notices := e ::ₘ w.notices }
  | beside (t : Engine) (keeps : w.engine.Keeps t)
    (registry : t.client.registry = w.engine.client.registry)
    (journal : ∃ os, t.client.journal = os ++ w.engine.client.journal ∧
      ∀ o ∈ os, o.isAside = true)
    (handed : t.handed = w.engine.handed) : Passage admits w { w with engine := t }

variable {admits : Order → Prop} {w w' : Crossing}

theorem Sound.not_session (hw : w.Sound) {p : Party} {o : Operation}
    (h : (p, o) ∈ w.engine.tasks) : ∀ st, o = .session st → st = .done := by
  rintro st rfl
  exact hw.calm p st h

theorem Sound.after_moved (hw : w.Sound) {t : Engine} {p : Party} {m : Move} {o o' : Operation}
    {rest : Multiset (Party × Operation)} (before : w.engine.tasks = (p, o) ::ₘ rest)
    (move : o.move m p w.engine.client = some (o', t.client))
    (after : t.tasks = (p, o') ::ₘ rest ∨ o' = .session .done ∧ t.tasks = rest) :
    (∀ st, o ≠ .session st) ∧ t.tasks = (p, o') ::ₘ rest := by
  have hmem : (p, o) ∈ w.engine.tasks := before ▸ Multiset.mem_cons_self _ _
  have hns : ∀ st, o ≠ .session st := by
    rintro st rfl
    obtain rfl := hw.calm p st hmem
    have hdone : (Operation.session .done).Finished := rfl
    rw [Operation.move_of_finished hdone] at move
    cases move
  refine ⟨hns, after.resolve_right ?_⟩
  rintro ⟨rfl, _⟩
  exact Operation.ne_session_of_move move hns .done rfl

theorem passage_of_went (hw : w.Sound) {a : Engine.Action} {t : Engine} (hown : a.isOwn = true)
    (ho : w.engine.client.closed = false) (h : Engine.act a w.engine = some t) :
    Passage admits w { w with engine := t } := by
  cases Engine.act_turnover hw.orderly ho h with
  | started p o taken origin fresh after client handed =>
    cases origin with
    | call => cases hown
    | event => cases hown
    | removal b worker =>
      exact .begun t _ (.remove b.request) [b] (.inr ⟨b, rfl, rfl⟩) rfl ho fresh after client handed
  | moved p m o o' rest action before move after handed =>
    obtain ⟨hns, hafter⟩ := hw.after_moved before move after
    cases m with
    | resume => exact .resumed t p o o' rest before move hafter handed
    | answer slot x =>
      subst action
      cases hown
    | timeOut slot =>
      cases o with
      | session st => exact absurd rfl (hns st)
      | arming | removal | enrolment | notification => cases move
    | retry slot =>
      cases o with
      | session st => exact absurd rfl (hns st)
      | arming | removal | enrolment | notification => cases move
  | ended p o rest inside before finished after aside handed =>
    refine .beside t (.inr ⟨(p, o), finished, ?_⟩) aside.registry aside.journal handed
    rw [before, after]
  | abandoned id o rest action =>
    subst action
    cases hown
  | beside inside after aside handed =>
    exact .beside t (.inl after) aside.registry aside.journal handed
  | silenced inside silent after =>
    subst after
    exact .beside _ (.inl rfl) rfl
      ⟨[.remarked .deliveryQueueClosed], rfl, by simp [Occurrence.isAside]⟩ rfl

theorem passage_of_answered (hw : w.Sound) {p : Party} {slot : Nat} {x : Answer} {t : Engine}
    (hsent : w.underway p slot = some x) (ho : w.engine.client.closed = false)
    (h : Engine.act (.answer p slot x) w.engine = some t) :
    Passage admits w { w with engine := t, underway := w.underway.put p slot none } := by
  obtain ⟨o, o', rest, hbefore, hmove, hafter, hhanded⟩ := Engine.answer_turnover hw.orderly ho h
  exact .replied t p slot x o o' rest hsent hbefore hmove (hw.after_moved hbefore hmove hafter).2
    hhanded

theorem Step.passage (hw : w.Sound) (h : Step admits w w') : Passage admits w w' := by
  cases h with
  | ordered o t direct admitted opened act =>
    obtain ⟨p, hfresh, htasks, hclient, hhanded⟩ := Engine.begin_turnover hw.orderly opened act
    exact .begun t p o [] (.inl ⟨rfl, admitted⟩) direct opened hfresh htasks hclient hhanded
  | went a t own opened act => exact passage_of_went hw own opened act
  | handled p slot q limit x S awaited unanswered serves unfailing =>
    obtain ⟨o, ho⟩ := Engine.exists_task_of_waits (s := w.engine) (p := p) fun hnil => by
      rw [hnil] at awaited
      cases awaited
    rw [Engine.waits_of_mem hw.orderly ho] at awaited
    exact .handled p o slot q x S ho (Operation.awaits_of_waits (hw.not_session ho) awaited)
      unanswered serves unfailing
  | answered p slot x t sent opened act => exact passage_of_answered hw sent opened act
  | fired e admitted => exact .fired e admitted
  | notified e rest t notice opened act =>
    obtain ⟨p, hfresh, htasks, hclient, hhanded⟩ := Engine.begin_turnover hw.orderly opened act
    exact .notified t p e rest notice opened hfresh htasks hclient hhanded

theorem Sound.grown (hw : w.Sound) {t : Engine} (ht : t.Orderly) {p : Party} {o : Operation}
    (hns : ∀ st, o ≠ .session st) (htasks : t.tasks = (p, o) ::ₘ w.engine.tasks)
    (notices : Multiset WatchedEvent) : Sound { w with engine := t, notices := notices } := by
  refine ⟨ht, fun p' st hm => ?_, fun p' slot x hx => ?_⟩
  · change (p', _) ∈ t.tasks at hm
    rw [htasks, Multiset.mem_cons] at hm
    rcases hm with he | hm
    · exact absurd (Prod.mk.inj he).2.symm (hns st)
    · exact hw.calm p' st hm
  · obtain ⟨o', q, hm, ha⟩ := hw.awaited p' slot x hx
    refine ⟨o', q, ?_, ha⟩
    change (p', o') ∈ t.tasks
    rw [htasks]
    exact Multiset.mem_cons_of_mem hm

theorem Sound.moved (hw : w.Sound) {t : Engine} (ht : t.Orderly) {p : Party} {o o' : Operation}
    {rest : Multiset (Party × Operation)} {u : Underway}
    (before : w.engine.tasks = (p, o) ::ₘ rest) (after : t.tasks = (p, o') ::ₘ rest)
    (hns : ∀ st, o' ≠ .session st)
    (hu : ∀ p' i y, u p' i = some y → w.underway p' i = some y ∧
      (p' = p → ∀ q, o.Awaits i q → o'.Awaits i q)) :
    Sound { w with engine := t, underway := u } := by
  refine ⟨ht, fun p' st hm => ?_, fun p' i y hy => ?_⟩
  · change (p', _) ∈ t.tasks at hm
    rw [after, Multiset.mem_cons] at hm
    rcases hm with he | hm
    · exact absurd (Prod.mk.inj he).2.symm (hns st)
    · exact hw.calm p' st (before ▸ Multiset.mem_cons_of_mem hm)
  · obtain ⟨hy', hkeep⟩ := hu p' i y hy
    obtain ⟨o₁, q, hm, ha⟩ := hw.awaited p' i y hy'
    change ∃ o q, (p', o) ∈ t.tasks ∧ _
    rw [after]
    by_cases hp : p' = p
    · subst hp
      obtain rfl := Engine.task_unique hw.orderly hm (before ▸ Multiset.mem_cons_self _ _)
      exact ⟨o', q, Multiset.mem_cons_self _ _, hkeep rfl q ha⟩
    · rw [before, Multiset.mem_cons] at hm
      exact ⟨o₁, q, Multiset.mem_cons_of_mem (hm.resolve_left fun he => hp (Prod.mk.inj he).1), ha⟩

theorem Passage.sound (hw : w.Sound) (ht : w'.engine.Orderly) (h : Passage admits w w') :
    w'.Sound := by
  cases h with
  | begun t p o taken source direct opened fresh tasks client handed =>
    refine hw.grown ht (Operation.start_ne_session ?_ _) tasks w.notices
    rintro e rfl
    cases direct
  | notified t p e rest notice opened fresh tasks client handed =>
    exact hw.grown ht (Operation.start_ne_session (by simp) _) tasks rest
  | resumed t p o o' rest before move after handed =>
    obtain ⟨hns, _⟩ := hw.after_moved (m := .resume) before move (.inl after)
    have hns' := Operation.ne_session_of_move (m := .resume) move hns
    exact hw.moved ht before after hns' fun p' i y hy => ⟨hy, fun _ q ha => ha.resume move⟩
  | replied t p slot x o o' rest sent before move after handed =>
    obtain ⟨hns, _⟩ := hw.after_moved (m := .answer slot x) before move (.inl after)
    have hns' := Operation.ne_session_of_move (m := .answer slot x) (p := p) move hns
    refine hw.moved ht before after hns' fun p' i y hy => ?_
    rcases Underway.put_eq_some hy with ⟨_, _, hx⟩ | ⟨hne, hy⟩
    · cases hx
    · exact ⟨hy, fun hp q ha => ha.answer (fun hi => hne ⟨hp, hi⟩) move⟩
  | handled p o slot q x S task awaits unanswered serves unfailing =>
    refine ⟨hw.orderly, hw.calm, fun p' i y hy => ?_⟩
    rcases Underway.put_eq_some hy with ⟨rfl, rfl, _⟩ | ⟨_, hy⟩
    · exact ⟨o, q, task, awaits⟩
    · exact hw.awaited p' i y hy
  | fired e admitted => exact ⟨hw.orderly, hw.calm, hw.awaited⟩
  | beside t keeps registry journal handed =>
    refine ⟨ht, fun p' st hm => hw.calm p' st (keeps.mem hm), fun p' i y hy => ?_⟩
    obtain ⟨o, q, hm, ha⟩ := hw.awaited p' i y hy
    exact ⟨o, q, keeps.mem_of_unfinished hm ha.not_finished, ha⟩

theorem Step.orderly (hw : w.Sound) (h : Step admits w w') : w'.engine.Orderly := by
  cases h with
  | ordered o t direct admitted opened act => exact Engine.orderly_act hw.orderly act
  | went a t own opened act => exact Engine.orderly_act hw.orderly act
  | handled => exact hw.orderly
  | answered p slot x t sent opened act => exact Engine.orderly_act hw.orderly act
  | fired => exact hw.orderly
  | notified e rest t notice opened act => exact Engine.orderly_act hw.orderly act

theorem Step.sound (hw : w.Sound) (h : Step admits w w') : w'.Sound :=
  (h.passage hw).sound hw (h.orderly hw)

theorem Settled.sound (hs : w.Settled) (ho : w.engine.Orderly) : w.Sound := by
  refine ⟨ho, fun p st hm => ?_, fun p slot x hx => ?_⟩
  · have hfin := hs.atRest.1 _ hm
    cases st <;> first | rfl | cases hfin
  · rw [hs.delivered] at hx
    cases hx

/-- What is on its way is awaited by somebody who has not come to an end. -/
theorem Sound.settled (hw : w.Sound) (hr : w.engine.AtRest) (hn : w.notices = 0) : w.Settled := by
  refine ⟨hr, fun p i => ?_, hn⟩
  cases hx : w.underway p i with
  | none => rfl
  | some x =>
    obtain ⟨o, q, hm, ha⟩ := hw.awaited p i x hx
    exact absurd (hr.1 _ hm) ha.not_finished

theorem Step.reachable {settings : Settings} {feed : Option Nat}
    (hr : Engine.Reachable settings feed w.engine) (h : Step admits w w') :
    Engine.Reachable settings feed w'.engine := by
  cases h with
  | ordered o t direct admitted opened act => exact .step _ hr act
  | went a t own opened act => exact .step a hr act
  | handled => exact hr
  | answered p slot x t sent opened act => exact .step _ hr act
  | fired => exact hr
  | notified e rest t notice opened act => exact .step _ hr act

theorem reachable_run {settings : Settings} {feed : Option Nat}
    (hr : Engine.Reachable settings feed w.engine) (h : Relation.ReflTransGen (Step admits) w w') :
    Engine.Reachable settings feed w'.engine := by
  induction h with
  | refl => exact hr
  | tail _ hstep ih => exact hstep.reachable ih

theorem sound_run (hw : w.Sound) (h : Relation.ReflTransGen (Step admits) w w') : w'.Sound := by
  induction h with
  | refl => exact hw
  | tail _ hstep ih => exact hstep.sound ih

end Crossing

end NodeWatch
