import NodeWatch.Proofs.Chronicle
import NodeWatch.Proofs.OperationSendings

/-! A run as one operation lives through it. From the moment it is begun until it leaves its party's
hands, an operation has its turns, the moves that it makes itself; what anybody else does happens in
between. -/

namespace NodeWatch

/-- A move, with the operation and the client that it found and the client that it left. -/
structure Turn where
  move : Move
  operation : Operation
  before : Client
  after : Client

namespace Turn

/-- What was noted in the turn, the latest first. -/
def noted (x : Turn) : List Occurrence :=
  x.after.journal.take (x.after.journal.length - x.before.journal.length)

/-- The request that was answered by the turn, with the answer. -/
def reply? (x : Turn) : Option (Request × Answer) :=
  match x.move with
  | .answer slot a =>
    match (x.operation.waits x.before.settings.resubmit)[slot]? with
    | some (some (.answer q _)) => some (q, a)
    | _ => none
  | _ => none

/-- What was taken out in these turns, given the latest first, in the order in which it was. -/
def takings (ts : List Turn) : List Consumption :=
  NodeWatch.takings (ts.flatMap noted).reverse

/-- The deliveries that were done with in these turns, in order. -/
def sendings (ts : List Turn) : List Delivery :=
  Client.sendings (ts.flatMap noted)

/-- What the turn put on the queue of deliveries. -/
def posted (x : Turn) : List Delivery :=
  x.before.growth x.after

/-- What was put on the queue of deliveries in these turns, in order. -/
def queuings (ts : List Turn) : List Delivery :=
  ts.reverse.flatMap posted

/-- The requests that were submitted in these turns, in order. -/
def askings (ts : List Turn) : List Request :=
  Client.askings (ts.flatMap noted)

/-- A removal looks at a kind for new registrations, in this registry. -/
def check? (x : Turn) : Option (Kind × Registry) :=
  match x.move, x.operation with
  | .resume, .removal _ (.checking (k :: _) _) => some (k, x.before.registry)
  | _, _ => none

/-- The kinds that were looked at in these turns, in order. -/
def checks (ts : List Turn) : List (Kind × Registry) :=
  (ts.filterMap check?).reverse

/-- What the server answered to a request, the latest time. -/
def answer? (ts : List Turn) (q : Request) : Option Answer :=
  (ts.filterMap reply?).lookup q

theorem noted_eq {x : Turn} {os : List Occurrence} (h : x.after.journal = os ++ x.before.journal) :
    x.noted = os := by
  have hlen : x.after.journal.length - x.before.journal.length = os.length := by
    rw [h, List.length_append, Nat.add_sub_cancel]
  rw [noted, hlen, h, List.take_left]

theorem takings_append (ts us : List Turn) : takings (ts ++ us) = takings us ++ takings ts := by
  simp only [takings, List.flatMap_append, List.reverse_append, NodeWatch.takings_append]

theorem sendings_append (ts us : List Turn) : sendings (ts ++ us) = sendings us ++ sendings ts := by
  simp only [sendings, List.flatMap_append, Client.sendings_append]

theorem queuings_append (ts us : List Turn) : queuings (ts ++ us) = queuings us ++ queuings ts := by
  simp only [queuings, List.reverse_append, List.flatMap_append]

theorem queuings_cons (x : Turn) (ts : List Turn) : queuings (x :: ts) = queuings ts ++ x.posted := by
  simp [queuings]

theorem askings_append (ts us : List Turn) : askings (ts ++ us) = askings us ++ askings ts := by
  simp only [askings, List.flatMap_append, Client.askings_append]

theorem sendings_cons (x : Turn) (ts : List Turn) : sendings (x :: ts) = sendings ts ++ sendings [x] :=
  sendings_append [x] ts

theorem askings_cons (x : Turn) (ts : List Turn) : askings (x :: ts) = askings ts ++ askings [x] :=
  askings_append [x] ts

theorem checks_append (ts us : List Turn) : checks (ts ++ us) = checks us ++ checks ts := by
  simp only [checks, List.filterMap_append, List.reverse_append]

theorem answer?_cons_of_none {x : Turn} (h : x.reply? = none) (ts : List Turn) (q : Request) :
    answer? (x :: ts) q = answer? ts q := by
  rw [answer?, List.filterMap_cons_none h]
  rfl

theorem answer?_cons {x : Turn} {q' : Request} {a : Answer} (h : x.reply? = some (q', a))
    (ts : List Turn) (q : Request) :
    answer? (x :: ts) q = if q = q' then some a else answer? ts q := by
  rw [answer?, List.filterMap_cons_some h, List.lookup_cons]
  by_cases hq : q = q'
  · simp [hq]
  · rw [beq_eq_false_iff_ne.mpr hq, if_neg hq]
    rfl

theorem sendings_singleton {x : Turn} (os : List Occurrence)
    (h : x.after.journal = os ++ x.before.journal) : sendings [x] = Client.sendings os := by
  rw [sendings, List.flatMap_singleton, noted_eq h]

/-- The turn put on the queue what it had done with, as long as the queue was open, and nothing if it
had done with nothing. -/
structure Delivers (x : Turn) : Prop where
  opened : x.before.deliveries.isOpen = true → x.posted = sendings [x]
  idle : sendings [x] = [] → x.posted = []

theorem delivers_of_move {p : Party} {m : Move} {o o' : Operation} {c c' : Client}
    (h : o.move m p c = some (o', c')) : (⟨m, o, c, c'⟩ : Turn).Delivers := by
  have hmails := Operation.mails_move h
  generalize (Operation.restores m o || c.connected) = connected at hmails
  generalize o.agenda = ds at hmails
  generalize o'.agenda = ds' at hmails
  cases hmails with
  | idled idles =>
    obtain ⟨os, hj, _, hsent⟩ := idles.journal
    have hnone : sendings [⟨m, o, c, c'⟩] = [] := (sendings_singleton _ hj).trans hsent
    have hposted : posted ⟨m, o, c, c'⟩ = [] :=
      Client.growth_of_append (by rw [idles.deliveries, List.append_nil])
    exact ⟨fun _ => hposted.trans hnone.symm, fun _ => hposted⟩
  | sent d ds client =>
    have hsent := c.sent p d
    generalize c.send p d = x at hsent client
    obtain ⟨done, c₁⟩ := x
    obtain rfl : c' = c₁ := client
    cases hsent with
    | dropped refused =>
      refine ⟨fun hopen => ?_, fun _ => Client.growth_of_append (List.append_nil _).symm⟩
      rw [show c.deliveries.isOpen = true from hopen] at refused
      cases refused
    | queued q offer =>
      have hone : sendings [⟨m, o, c, { c with deliveries := q }.note (.queued d)⟩] = [d] :=
        sendings_singleton [.queued d] rfl
      refine ⟨fun _ => ?_, fun hnone => by cases hone.symm.trans hnone⟩
      exact (Client.growth_of_append (Queue.items_of_accepted offer)).trans hone.symm
    | lined q offer =>
      have hposted : posted ⟨m, o, c, { c with deliveries := q }⟩ = [] :=
        Client.growth_of_append ((Queue.items_of_mustWait offer).trans (List.append_nil _).symm)
      have hnone : sendings [⟨m, o, c, { c with deliveries := q }⟩] = [] :=
        sendings_singleton [] rfl
      exact ⟨fun _ => hposted.trans hnone.symm, fun _ => hposted⟩

theorem queuings_eq_sendings {ts : List Turn} (hd : ∀ x ∈ ts, x.Delivers)
    (ho : ∀ x ∈ ts, x.before.deliveries.isOpen = true) : queuings ts = sendings ts := by
  induction ts with
  | nil => rfl
  | cons x ts ih =>
    rw [queuings_cons, sendings_cons, ih (fun y hy => hd y (.tail _ hy)) fun y hy => ho y (.tail _ hy),
      (hd x (.head _)).opened (ho x (.head _))]

theorem queuings_of_sendings {ts : List Turn} (hd : ∀ x ∈ ts, x.Delivers) (hs : sendings ts = []) :
    queuings ts = [] := by
  induction ts with
  | nil => rfl
  | cons x ts ih =>
    rw [sendings_cons, List.append_eq_nil_iff] at hs
    rw [queuings_cons, ih (fun y hy => hd y (.tail _ hy)) hs.1, (hd x (.head _)).idle hs.2]
    rfl

end Turn

/-- A queue of deliveries that was closed is never opened again. -/
theorem Engine.isOpen_of_act {a : Engine.Action} {s t : Engine} (h : Engine.act a s = some t)
    (hopen : t.client.deliveries.isOpen = true) : s.client.deliveries.isOpen = true := by
  rcases act_change_or_shutdown h with hch | ⟨_, hsd⟩
  · cases hch with
    | begun o => exact (congrArg Queue.isOpen (Operation.undisturbed_start o s.client).deliveries) ▸ hopen
    | moved p m o o' c action task move =>
      rw [client_put, (Operation.grows_move move).isOpen] at hopen
      exact hopen
    | concluded b r =>
      exact (Client.Aside.of_remarked (Worker.remarked_conclude b r s.client)).opens ▸ hopen
    | reported f e sent c worker send =>
      have hc : c = (s.client.send .remover (.completion f e)).2 := by rw [send]
      change c.deliveries.isOpen = true at hopen
      rw [hc, (Client.grows_send _ _ _).isOpen] at hopen
      exact hopen
    | dispatched conduct d q dispatching take =>
      rw [(Client.Aside.deliver conduct _ d).opens] at hopen
      exact (Queue.isOpen_take take).symm.trans hopen
    | undertook b =>
      exact (congrArg Queue.isOpen (Removal.undisturbed_start b.request s.client).deliveries) ▸ hopen
    | heard e es listener unread opened =>
      exact (congrArg Queue.isOpen (Session.idles_start e s.client).deliveries) ▸ hopen
    | performed d => exact (Client.Aside.apply s.client d).opens ▸ hopen
    | retired => exact (Queue.isOpen_withdraw _ _).symm.trans hopen
    | abandoned => exact (Queue.isOpen_withdraw _ _).symm.trans hopen
    | silenced => cases hopen
    | _ => exact hopen
  · cases hsd with
    | dispatching => cases hopen
    | worker => exact (Queue.isOpen_withdraw _ _).symm.trans hopen
    | listener => exact hopen

/-- A run, with the turns that the operation in a party's hands has had, the latest first. -/
structure Pursuit where
  engine : Engine
  turns : List Turn

namespace Pursuit

open Engine (Action actionOf)

/-- The move that an action makes for a party. -/
def moveOf? (p : Party) : Action → Option Move
  | .resume q => if q = p then some .resume else none
  | .answer q slot x => if q = p then some (.answer slot x) else none
  | .timeOut q slot => if q = p then some (.timeOut slot) else none
  | .retry q slot => if q = p then some (.retry slot) else none
  | _ => none

def record (p : Party) (a : Action) (w : Pursuit) (t : Engine) : Pursuit :=
  match moveOf? p a, w.engine.task? p with
  | some m, some o => ⟨t, ⟨m, o, w.engine.client, t.client⟩ :: w.turns⟩
  | _, _ => { w with engine := t }

/-- An action of whatever party that leaves the operation in its party's hands. -/
def act (p : Party) (a : Action) (w : Pursuit) : Option Pursuit :=
  (Engine.act a w.engine).bind fun t =>
    if (t.task? p).isSome then some (w.record p a t) else none

def Step (p : Party) (w v : Pursuit) : Prop :=
  ∃ a, act p a w = some v

def follow (p : Party) (as : List Action) (w : Pursuit) : Option Pursuit :=
  as.foldlM (fun w a => act p a w) w

variable {p : Party} {w v : Pursuit} {a : Action}

theorem steps_of_follow {as : List Action} (h : follow p as w = some v) :
    Relation.ReflTransGen (Step p) w v :=
  run_of_foldlM (fun a _ _ _ hv => ⟨a, hv⟩) h

theorem moveOf?_eq_some {m : Move} (h : moveOf? p a = some m) : a = actionOf p m := by
  unfold moveOf? at h
  split at h
  all_goals first
    | cases h
    | split at h
      · rename_i hp
        cases h
        rw [hp]
        rfl
      · cases h

/-- The operation has its turn, or is as it was. -/
inductive Went (p : Party) (w : Pursuit) (t : Engine) : Pursuit → Prop
  | own (m : Move) (o o' : Operation) (task : w.engine.task? p = some o)
    (move : o.move m p w.engine.client = some (o', t.client)) (after : t.task? p = some o') :
    Went p w t ⟨t, ⟨m, o, w.engine.client, t.client⟩ :: w.turns⟩
  | aside (same : t.task? p = w.engine.task? p) : Went p w t { w with engine := t }

/-- The background worker's turn does nothing to a removal in its hands. -/
theorem task?_turn {s t : Engine} {o : Operation} (ho : s.task? .remover = some o)
    (h : Engine.act .turn s = some t) (ht : (t.task? .remover).isSome) :
    t.task? .remover = s.task? .remover := by
  rcases Engine.act_change_or_shutdown h with hch | ⟨_, hsd⟩
  · cases hch with
    | moved q m o₁ o' c action => cases m <;> cases action
    | took b q worker => cases ht
    | retired => cases ht
    | undertook b worker =>
      rw [Engine.task?, worker] at ho
      cases ho
    | stirred w' action same =>
      change w'.task? = s.worker.task?
      generalize s.worker = w'' at same
      cases same <;> rfl
  · cases hsd
    cases ht

/-- The operation of a party that an action does not move is as it was, if the party still has it. -/
theorem task?_of_foreign {s t : Engine} {o : Operation} (hs : s.Orderly) (ho : s.task? p = some o)
    (h : Engine.act a s = some t) (ha : moveOf? p a = none) (ht : (t.task? p).isSome) :
    t.task? p = s.task? p := by
  cases Engine.course hs h with
  | started q o₁ party free task client others =>
    refine others p ?_
    rintro rfl
    rw [free] at ho
    cases ho
  | beside kept =>
    rcases kept p with hk | ⟨hk, _⟩
    · exact hk
    · rw [hk] at ht
      cases ht
  | moved q m o₁ o' party task move after others =>
    by_cases hq : p = q
    · subst hq
      cases a with
      | begin o₂ =>
        obtain rfl := Option.some.inj party
        rw [Engine.task?_fresh hs] at ho
        cases ho
      | turn =>
        obtain rfl := Option.some.inj party
        exact task?_turn ho h ht
      | listen =>
        obtain rfl := Option.some.inj party
        obtain ⟨⟨l, f, c⟩, hl, _⟩ := Option.map_eq_some_iff.mp h
        cases hs : s.listener <;> simp [Engine.task?, hs, Listener.task?, Listener.listen] at ho hl
      | resume q | answer q | timeOut q | retry q =>
        obtain rfl := Option.some.inj party
        rw [moveOf?, if_pos rfl] at ha
        cases ha
      | _ => cases party
    · exact others p hq

/-- The operation that a party moves goes on to be in its hands, unless it has ended. -/
theorem moved_of_act {s t : Engine} {o : Operation} {m : Move} (ho : s.task? p = some o)
    (h : Engine.act (actionOf p m) s = some t) (ht : (t.task? p).isSome) :
    ∃ o', o.move m p s.client = some (o', t.client) ∧ t.task? p = some o' := by
  generalize ha : actionOf p m = a at h
  rcases Engine.act_change_or_shutdown h with hch | ⟨_, hsd⟩
  · cases hch with
    | moved q l o₁ o' c action task move =>
      obtain ⟨rfl, rfl⟩ := Engine.actionOf_inj (ha.trans action)
      obtain rfl := Option.some.inj (ho.symm.trans task)
      refine ⟨o', by rw [Engine.client_put]; exact move, ?_⟩
      rcases (Engine.task?_put task move).1 with hput | ⟨_, _, hput⟩
      · exact hput
      · rw [hput] at ht
        cases ht
    | concluded b r worker =>
      obtain ⟨rfl, _⟩ := Engine.actionOf_inj (l := .resume) ha
      cases hb : b.callback <;> cases r <;>
        simp [Engine.task?, Worker.conclude, hb, Worker.task?] at ht
    | reported f e sent c worker send =>
      obtain ⟨rfl, _⟩ := Engine.actionOf_inj (l := .resume) ha
      rw [Engine.task?, worker] at ho
      cases ho
    | stirred w action same => rcases action with rfl | rfl <;> cases m <;> cases ha
    | _ => cases m <;> cases ha
  · cases hsd <;> cases m <;> cases ha

theorem went (hw : w.engine.Orderly) {o : Operation} (ho : w.engine.task? p = some o)
    (h : act p a w = some v) : ∃ t, Engine.act a w.engine = some t ∧ Went p w t v := by
  obtain ⟨t, hact, hv⟩ := Option.bind_eq_some_iff.mp h
  refine ⟨t, hact, ?_⟩
  split at hv
  · rename_i hsome
    obtain rfl := Option.some.inj hv
    cases hm : moveOf? p a with
    | some m =>
      obtain rfl := moveOf?_eq_some hm
      obtain ⟨o', hmove, hafter⟩ := moved_of_act ho hact hsome
      simp only [record, hm, ho]
      exact .own m o o' ho hmove hafter
    | none =>
      simp only [record, hm]
      exact .aside (task?_of_foreign hw ho hact hm hsome)
  · cases hv

/-- A relation between an operation and its turns that its moves keep holds throughout a run. -/
theorem tells_run (Tells : Operation → List Turn → Prop) {o : Operation} (hw : w.engine.Orderly)
    (ho : w.engine.task? p = some o) (htells : Tells o w.turns)
    (hmove : ∀ m o o' c c' ts, o.move m p c = some (o', c') → Tells o ts →
      Tells o' (⟨m, o, c, c'⟩ :: ts))
    (h : Relation.ReflTransGen (Step p) w v) :
    v.engine.Orderly ∧ ∃ o', v.engine.task? p = some o' ∧ Tells o' v.turns := by
  induction h with
  | refl => exact ⟨hw, o, ho, htells⟩
  | tail _ hstep ih =>
    obtain ⟨horderly, o₁, htask, htells⟩ := ih
    obtain ⟨a, ha⟩ := hstep
    obtain ⟨t, hact, hwent⟩ := went horderly htask ha
    have ht := Engine.orderly_act horderly hact
    cases hwent with
    | own m o₂ o' task move after =>
      obtain rfl := Option.some.inj (htask.symm.trans task)
      exact ⟨ht, o', after, hmove m _ o' _ _ _ move htells⟩
    | aside same => exact ⟨ht, o₁, same.trans htask, htells⟩

theorem task_run {o : Operation} (hw : w.engine.Orderly) (ho : w.engine.task? p = some o)
    (h : Relation.ReflTransGen (Step p) w v) :
    v.engine.Orderly ∧ ∃ o', v.engine.task? p = some o' := by
  obtain ⟨horderly, o', htask, _⟩ :=
    tells_run (fun _ _ => True) hw ho trivial (fun _ _ _ _ _ _ _ _ => trivial) h
  exact ⟨horderly, o', htask⟩

/-- What every turn of an operation is like. -/
theorem turns_run {t : Engine} {o : Operation} (P : Operation → Prop) (Q : Turn → Prop) (ht : t.Orderly)
    (ho : t.task? p = some o) (hP : P o)
    (hmove : ∀ m o o' c c', o.move m p c = some (o', c') → P o → P o' ∧ Q ⟨m, o, c, c'⟩)
    (h : Relation.ReflTransGen (Step p) ⟨t, []⟩ w) : ∀ x ∈ w.turns, Q x := by
  obtain ⟨_, o', _, _, hturns⟩ := tells_run (fun o ts => P o ∧ ∀ x ∈ ts, Q x) ht ho
    ⟨hP, by simp⟩ (fun m o o' c c' ts hm htells => by
      obtain ⟨hP', hQ⟩ := hmove m o o' c c' hm htells.1
      refine ⟨hP', fun x hx => ?_⟩
      rcases List.mem_cons.mp hx with rfl | hx
      · exact hQ
      · exact htells.2 x hx) h
  exact hturns

/-- What was done with in the turns of a run was put on the queue. -/
theorem delivers_run {t : Engine} {o : Operation} (ht : t.Orderly) (ho : t.task? p = some o)
    (h : Relation.ReflTransGen (Step p) ⟨t, []⟩ w) : ∀ x ∈ w.turns, x.Delivers :=
  turns_run (fun _ => True) Turn.Delivers ht ho trivial
    (fun _ _ _ _ _ hm _ => ⟨trivial, Turn.delivers_of_move hm⟩) h

/-- A queue of deliveries that is open now was open in every turn. -/
theorem opens_run {o : Operation} (hw : w.engine.Orderly) (ho : w.engine.task? p = some o)
    (hturns : w.turns = []) (h : Relation.ReflTransGen (Step p) w v)
    (hopen : v.engine.client.deliveries.isOpen = true) :
    ∀ x ∈ v.turns, x.before.deliveries.isOpen = true := by
  induction h with
  | refl => simp [hturns]
  | @tail u v hrun hstep ih =>
    obtain ⟨horderly, o₁, htask⟩ := task_run hw ho hrun
    obtain ⟨a, ha⟩ := hstep
    obtain ⟨t, hact, hwent⟩ := went horderly htask ha
    cases hwent with
    | own m o₂ o' task move after =>
      have hbefore := Engine.isOpen_of_act hact hopen
      intro x hx
      rcases List.mem_cons.mp hx with rfl | hx
      · exact hbefore
      · exact ih hbefore x hx
    | aside same => exact ih (Engine.isOpen_of_act hact hopen)

end Pursuit

end NodeWatch
