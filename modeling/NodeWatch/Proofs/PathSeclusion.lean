import NodeWatch.Proofs.PathUpshots

/-! Operations on different paths. An operation reads and changes the entries at its own path alone,
so what goes on elsewhere has no part in what it comes to, and operations on different paths may
change places. -/

namespace NodeWatch

/-! ### The entries at a path, from turn to turn -/

namespace Turn

variable {path : String} {h h' : Holders} {ts later earlier : List Turn} {x : Turn}

/-- The turn left the entries at a path as they were. -/
def Keeps (x : Turn) (path : String) : Prop :=
  x.after.registry.atPath path = x.before.registry.atPath path

/-- What is registered at a path, from turn to turn, given the latest first: each turn finds there
what the one before it has left. -/
def Linked (path : String) (h : Holders) : List Turn → Holders → Prop
  | [], h' => h' = h
  | x :: ts, h' => h' = x.after.registry.atPath path ∧
      Linked path h ts (x.before.registry.atPath path)

theorem Still.keeps (h : x.Still) (path : String) : x.Keeps path := by
  rw [Keeps, h.1]

theorem Linked.eq (hl : Linked path h ts h') (hkeeps : ∀ y ∈ ts, y.Keeps path) : h' = h := by
  induction ts generalizing h' with
  | nil => exact hl
  | cons y ts ih =>
    have hrest := ih hl.2 fun z hz => hkeeps z (.tail _ hz)
    exact hl.1.trans ((hkeeps y (.head _)).trans hrest)

theorem Linked.before_eq (hl : Linked path h ts h') (hkeeps : ∀ y ∈ ts, y.Keeps path) :
    ∀ y ∈ ts, y.before.registry.atPath path = h := by
  induction ts generalizing h' with
  | nil => exact fun y hy => by cases hy
  | cons z ts ih =>
    have hrest : ∀ y ∈ ts, y.Keeps path := fun y hy => hkeeps y (.tail _ hy)
    intro y hy
    rcases List.mem_cons.mp hy with rfl | hy
    · exact hl.2.eq hrest
    · exact ih hl.2 hrest y hy

theorem linked_append_cons : Linked path h (later ++ x :: earlier) h' ↔
    Linked path (x.after.registry.atPath path) later h' ∧
      Linked path h earlier (x.before.registry.atPath path) := by
  induction later generalizing h' with
  | nil => exact Iff.rfl
  | cons y later ih => exact (and_congr_right fun _ => ih).trans and_assoc.symm

end Turn

/-! ### How an operation goes on -/

namespace Operation

/-- What an operation on a path has before it. -/
def togo : Operation → Nat ×ₗ Nat
  | arming _ .asked => toLex (0, 1)
  | removal _ st => st.rank
  | notification (.telling ds) => toLex (0, ds.length + 1)
  | arming _ (.done _) | notification .done | enrolment .. | session _ => toLex (0, 0)

/-- The operation has not ended, and goes on: by itself, or with whatever answer it gets, it comes to
have less before it, or it is in line for the queue of deliveries, or lines up. -/
def Proceeds (p : Party) (op : Operation) (c : Client) : Prop :=
  op.outcome? = none ∧
    ((∃ op' c', op.move .resume p c = some (op', c') ∧ op'.togo < op.togo) ∨
      (∃ slot, ∀ x, ∃ op' c', op.move (.answer slot x) p c = some (op', c') ∧
        op'.togo < op.togo) ∨
      c.deliveries.stalls p = true ∨
      ∃ c', op.move .resume p c = some (op, c') ∧ c'.deliveries.stalls p = true)

end Operation

theorem Arming.proceeds_asked (a : Arming) (p : Party) (c : Client) :
    (Operation.arming a .asked).Proceeds p c := by
  refine ⟨rfl, .inr (.inl ⟨0, fun x => ?_⟩)⟩
  have hlt : ∀ y, (Operation.arming a (.done y)).togo < (Operation.arming a .asked).togo :=
    fun _ => Prod.Lex.toLex_lt_toLex.mpr (.inr ⟨rfl, Nat.one_pos⟩)
  cases x with
  | ok y => exact ⟨_, _, rfl, hlt _⟩
  | error f => exact ⟨_, _, rfl, hlt _⟩

theorem Removal.Proceeds.operation {r : RemovalRequest} {p : Party} {st : Stage} {c : Client}
    (h : Proceeds r p st c) (hd : ∀ result, st ≠ .done result) :
    (Operation.removal r st).Proceeds p c := by
  have hresume : ∀ st' c', resume r p st c = some (st', c') →
      (Operation.removal r st).move .resume p c = some (.removal r st', c') := fun st' c' hm => by
    simp [Operation.move, Operation.resume, hm]
  refine ⟨?_, ?_⟩
  · cases st with
    | done result => exact absurd rfl (hd result)
    | asking | confirming | checking | rearming => rfl
  · rcases h with ⟨st', c', hm, hlt⟩ | ⟨slot, hanswer⟩ | hstalls | ⟨c', hm, hstalls⟩
    · exact .inl ⟨_, _, hresume _ _ hm, hlt⟩
    · refine .inr (.inl ⟨slot, fun x => ?_⟩)
      obtain ⟨st', c', hm, hlt⟩ := hanswer x
      exact ⟨.removal r st', c', by simp [Operation.move, Operation.answer, hm], hlt⟩
    · exact .inr (.inr (.inl hstalls))
    · exact .inr (.inr (.inr ⟨c', hresume _ _ hm, hstalls⟩))

theorem Notification.proceeds_telling (ds : List Delivery) (p : Party) (c : Client) :
    (Operation.notification (.telling ds)).Proceeds p c := by
  refine ⟨rfl, ?_⟩
  cases ds with
  | nil => exact .inl ⟨_, _, rfl, Prod.Lex.toLex_lt_toLex.mpr (.inr ⟨rfl, Nat.one_pos⟩)⟩
  | cons d ds =>
    by_cases hstalls : c.deliveries.stalls p = true
    · exact .inr (.inr (.inl hstalls))
    · have hmove : Operation.move .resume p (.notification (.telling (d :: ds))) c =
          some (.notification (.telling (if (c.send p d).1 then ds else d :: ds)),
            (c.send p d).2) := by
        simp only [Operation.move, Operation.resume, resume, if_neg hstalls]
        split
        all_goals
          rename_i hs
          rw [hs]
          rfl
      have hlt : (Operation.notification (.telling ds)).togo <
          (Operation.notification (.telling (d :: ds))).togo :=
        Prod.Lex.toLex_lt_toLex.mpr (.inr ⟨rfl, Nat.lt_succ_self _⟩)
      have hsent := c.sent p d
      generalize c.send p d = x at hsent hmove
      obtain ⟨done, c'⟩ := x
      cases hsent with
      | dropped refused => exact .inl ⟨_, _, hmove, hlt⟩
      | queued q offer opens => exact .inl ⟨_, _, hmove, hlt⟩
      | lined q offer opens => exact .inr (.inr (.inr ⟨_, hmove, Queue.stalls_of_lined offer⟩))

/-! ### An order that is carried out with nobody else at its path -/

namespace Engine

/-- A party sets about an order: a caller who begins it, or the background worker, for a removal that
it received. -/
inductive Embarks (s : Engine) : Party → Order → Engine → Prop
  | called (o : Order) (t : Engine) (act : act (.begin o) s = some t) :
    Embarks s (.caller s.nextCall) o t
  | received (b : BackgroundRemoval) (t : Engine) (opened : s.client.closed = false)
    (worker : s.worker = .received b) (act : act .turn s = some t) :
    Embarks s .remover (.remove b.request) t

variable {s t : Engine} {p : Party} {o : Order}

theorem Embarks.undertakes {r : RemovalRequest} (h : s.Embarks p (.remove r) t) :
    s.Undertakes p r t := by
  cases h with
  | called _ _ act => exact .called r t act
  | received b _ opened worker act => exact .received b t worker act

theorem Embarks.begun (h : s.Embarks p o t) (hs : s.Orderly) :
    t.Orderly ∧ t.task? p = some (Operation.start o s.client).1 ∧
      t.client = (Operation.start o s.client).2 := by
  cases h with
  | called o t act => exact Engine.begun hs act
  | received b t opened worker act =>
    rw [Operation.start_remove opened]
    exact (Undertakes.received b t worker act).begun hs opened

/-- The requests that were made from one engine to the next. -/
def asked (s t : Engine) : List Request :=
  t.client.history.drop s.client.history.length

theorem asked_eq {qs : List Request} (h : t.client.history = s.client.history ++ qs) :
    s.asked t = qs := by
  rw [asked, h, List.drop_left]

theorem asked_of_unasked (h : s.client.Unasked t.client) : s.asked t = [] :=
  asked_eq (h.history.trans (List.append_nil _).symm)

end Engine

namespace Pursuit

variable {p : Party} {s t : Engine} {w v : Pursuit} {path : String} {paths : Set String}

/-- An action that leaves these paths as they are, unless it is a turn of the operation itself. -/
def Apart (p : Party) (paths : Set String) (w v : Pursuit) : Prop :=
  Step p w v ∧ (v.turns = w.turns → ∀ path ∈ paths,
    v.engine.client.registry.atPath path = w.engine.client.registry.atPath path)

theorem steps_of_apart (h : Relation.ReflTransGen (Apart p paths) w v) :
    Relation.ReflTransGen (Step p) w v :=
  Relation.ReflTransGen.mono (fun _ _ => And.left) _ _ h

/-- What the operation in a party's hands has come to. -/
def outcome? (w : Pursuit) (p : Party) : Option Outcome :=
  (w.engine.task? p).bind Operation.outcome?

/-- What has come of an order at this path that was begun between `s` and `t`. -/
def upshot? (w : Pursuit) (p : Party) (path : String) (s t : Engine) : Option Upshot :=
  (w.outcome? p).map fun x => ⟨x, s.asked t ++ Turn.askings w.turns, Turn.sendings w.turns,
    w.engine.client.registry.atPath path⟩

theorem linked_run {o : Operation} (ht : t.Orderly) (ho : t.task? p = some o)
    (hpath : path ∈ paths) (h : Relation.ReflTransGen (Apart p paths) ⟨t, []⟩ w) :
    Turn.Linked path (t.client.registry.atPath path) w.turns
      (w.engine.client.registry.atPath path) := by
  induction h with
  | refl => rfl
  | @tail u v hrun hstep ih =>
    obtain ⟨horderly, o₁, htask⟩ := task_run ht ho (steps_of_apart hrun)
    obtain ⟨⟨a, ha⟩, hapart⟩ := hstep
    obtain ⟨t', _, hwent⟩ := went horderly htask ha
    cases hwent with
    | own m o₂ o' task move after => exact ⟨rfl, ih⟩
    | aside same =>
      rw [hapart rfl path hpath]
      exact ih

end Pursuit

/-- An order is carried out from `s` on. Nobody else changes what is registered at these paths, and
the server answers its requests in this way. -/
structure Secluded (reply : Request → Answer) (o : Order) (paths : Set String) (p : Party)
    (s t : Engine) (w : Pursuit) : Prop where
  orderly : s.Orderly
  begun : s.Embarks p o t
  run : Relation.ReflTransGen (Pursuit.Apart p paths) ⟨t, []⟩ w
  answered : ∀ x ∈ w.turns, ∀ q a, x.reply? = some (q, a) → a = reply q

/-- The order goes on, or has come to this. -/
def Pursuit.Fares (w : Pursuit) (p : Party) (path : String) (s t : Engine) (u : Upshot) : Prop :=
  w.upshot? p path s t = some u ∨ w.upshot? p path s t = none ∧
    ∃ op, w.engine.task? p = some op ∧ op.Proceeds p w.engine.client

namespace Secluded

variable {reply : Request → Answer} {o : Order} {path : String} {paths : Set String} {p : Party}
  {s t : Engine} {w : Pursuit} {op : Operation} {u : Upshot}

theorem steps (h : Secluded reply o paths p s t w) :
    Relation.ReflTransGen (Pursuit.Step p) ⟨t, []⟩ w :=
  Pursuit.steps_of_apart h.run

theorem linked (h : Secluded reply o paths p s t w) (hpath : path ∈ paths) :
    Turn.Linked path ((Operation.start o s.client).2.registry.atPath path) w.turns
      (w.engine.client.registry.atPath path) := by
  obtain ⟨ht, htask, hclient⟩ := h.begun.begun h.orderly
  rw [← hclient]
  exact Pursuit.linked_run ht htask hpath h.run

theorem fares_of_proceeds (htask : w.engine.task? p = some op)
    (hproceeds : op.Proceeds p w.engine.client) : w.Fares p path s t u := by
  refine .inr ⟨?_, op, htask, hproceeds⟩
  rw [Pursuit.upshot?, Pursuit.outcome?, htask, Option.bind_some, hproceeds.1]
  rfl

theorem fares_of_outcome (htask : w.engine.task? p = some op) (ho : op.outcome? = some u.outcome)
    (hrequests : s.asked t ++ Turn.askings w.turns = u.requests)
    (hdeliveries : Turn.sendings w.turns = u.deliveries)
    (hleft : w.engine.client.registry.atPath path = u.left) : w.Fares p path s t u := by
  left
  rw [Pursuit.upshot?, Pursuit.outcome?, htask, Option.bind_some, ho, hrequests, hdeliveries, hleft]
  rfl

/-- An order that is refused, or has nothing to do, comes to its end at once. -/
theorem fares_of_finished (h : Secluded reply o paths p s t w) (hpath : path ∈ paths) {x : Outcome}
    {c : Client} (hstart : Operation.start o s.client = (op, c)) (hx : op.outcome? = some x)
    (hasked : s.client.Unasked c) : w.Fares p path s t ⟨x, [], [], c.registry.atPath path⟩ := by
  obtain ⟨ht, htask, hclient⟩ := h.begun.begun h.orderly
  have hlinked := h.linked hpath
  rw [hstart] at htask hclient hlinked
  have hfinished : op.Finished := by
    rw [Operation.Finished, hx]
    rfl
  obtain ⟨hwtask, hturns⟩ := Pursuit.run_of_finished ht htask hfinished h.steps
  rw [hturns] at hlinked
  refine fares_of_outcome hwtask hx ?_ ?_ hlinked
  · rw [hturns, Engine.asked_of_unasked (hclient ▸ hasked)]
    rfl
  · rw [hturns]
    rfl

theorem fares_closed (h : Secluded reply o paths p s t w) (hpath : path ∈ paths)
    (hc : s.client.closed = true) : w.Fares p path s t (o.upshot reply path s.client) := by
  obtain ⟨op, hstart, hx⟩ := Operation.start_of_closed hc o
  rw [Order.upshot, if_pos hc]
  exact h.fares_of_finished hpath hstart hx (.refl _)

end Secluded

/-! ### Reads that arm a watch -/

namespace Arming

variable {a : Arming} {x : Answer} {c c' : Client}

theorem left_of_settles (h : a.Settles c x c') :
    c'.registry.atPath a.path = a.left c.registry x := by
  cases x with
  | error f =>
    obtain rfl : c' = c := h
    rfl
  | ok y => exact congrArg (Registry.atPath · a.path) (Client.Admits.registry_eq h)

theorem sendings_of_settles (h : a.Settles c x c') :
    Turn.sendings [⟨.answer 0 x, .arming a .asked, c, c'⟩] = [] := by
  cases x with
  | error f =>
    obtain rfl : c' = c := h
    exact Turn.sendings_singleton [] rfl
  | ok y =>
    rw [Turn.sendings_singleton (x := ⟨.answer 0 (.ok y), .arming a .asked, c, c'⟩) _
      (Client.Admits.journal h)]
    split <;> rfl

end Arming

theorem Secluded.fares_arm {reply : Request → Answer} {a : Arming} {paths : Set String} {p : Party}
    {s t : Engine} {w : Pursuit} (h : Secluded reply (.arm a) paths p s t w)
    (hpath : a.path ∈ paths) (hc : s.client.closed = false) :
    w.Fares p a.path s t (a.upshot reply s.client.registry) := by
  unfold Arming.upshot
  split
  · rename_i f hf
    exact h.fares_of_finished hpath (Arming.start_invalid hc hf) rfl (.refl _)
  · rename_i hv
    have hlinked := h.linked hpath
    rw [Arming.start_valid hc hv] at hlinked
    have hbegun := h.begun
    cases hbegun with
    | called _ _ act =>
      obtain ⟨hclient, st, htask, hstands⟩ := Arming.stands_run h.orderly act hc hv h.steps
      cases st with
      | asked => exact fares_of_proceeds htask (a.proceeds_asked _ _)
      | done x =>
        obtain ⟨c, c', hturns, hsettles⟩ := hstands
        have hreply : x = reply (.register a.path a.read) :=
          h.answered _ (by rw [hturns]; exact .head _) _ _ (Arming.reply?_asked a x c c')
        rw [hturns] at hlinked
        obtain ⟨hlast, hfound⟩ := hlinked
        refine fares_of_outcome htask (congrArg (some ∘ Outcome.read) hreply) ?_ ?_ ?_
        · rw [hturns, Arming.askings_of_settles hsettles, List.append_nil]
          exact Engine.asked_eq (by rw [hclient, Client.history_submit])
        · rw [hturns, Arming.sendings_of_settles hsettles]
        · rw [hlast, Arming.left_of_settles hsettles, Arming.left_congr hfound, hreply]
          rfl

/-! ### Notifications -/

/-- What is noted when a delivery is offered. -/
theorem Client.noted_send (c : Client) (p : Party) (d : Delivery) :
    ∃ os, (c.send p d).2.journal = os ++ c.journal ∧ askings os = [] ∧
      sendings os = (if (c.send p d).1 then [d] else []) := by
  have hsent := c.sent p d
  generalize c.send p d = x at hsent ⊢
  obtain ⟨done, c'⟩ := x
  cases hsent with
  | dropped => exact ⟨[.dropped d, .remarked .deliveryDropped], rfl, rfl, rfl⟩
  | queued => exact ⟨[.queued d], rfl, rfl, rfl⟩
  | lined => exact ⟨[], rfl, rfl, rfl⟩

theorem Client.fire_fst (c : Client) (path : String) (e : WatchedEvent) :
    (c.fire path e).1 = (c.registry.takeTriggered path e.type).1 := by
  simp only [Client.fire]
  split
  all_goals
    rename_i h
    rw [h]

theorem Client.unasked_fire (c : Client) (path : String) (e : WatchedEvent) :
    c.Unasked (c.fire path e).2 := by
  simp only [Client.fire]
  split
  · exact ⟨rfl, rfl, rfl, [], rfl, by simp⟩
  · exact ⟨rfl, rfl, rfl, [_], rfl, by simp⟩

namespace Notification

variable {e : WatchedEvent} {path : String} {c : Client}

theorem start_telling (hc : c.closed = false) (hp : e.path = some path) :
    Operation.start (.notify e) c =
      (.notification (.telling (firings e (c.registry.takeTriggered path e.type).1)),
        (c.fire path e).2) := by
  rw [← c.fire_fst]
  simp only [Operation.start, start, hc, hp]
  rfl

/-- How far a notification has come that had these deliveries to send. -/
def Told (ds : List Delivery) (ts : List Turn) (st : Stage) : Prop :=
  Turn.sendings ts ++ st.agenda = ds ∧ Turn.askings ts = [] ∧ ∀ x ∈ ts, ∀ q, x.Keeps q

theorem told_move {ds : List Delivery} {p : Party} {o o' : Operation} {m : Move} {c c' : Client}
    {ts : List Turn} (hm : o.move m p c = some (o', c'))
    (h : ∃ st, o = .notification st ∧ Told ds ts st) :
    ∃ st, o' = .notification st ∧ Told ds (⟨m, o, c, c'⟩ :: ts) st := by
  obtain ⟨st, rfl, hsent, hasked, hkeeps⟩ := h
  have hnext : ∀ y : Turn, y.after.registry = y.before.registry →
      ∀ x ∈ y :: ts, ∀ q, x.Keeps q := by
    intro y hy x hx q
    rcases List.mem_cons.mp hx with rfl | hx
    · rw [Turn.Keeps, hy]
    · exact hkeeps x hx q
  cases Operation.moves hm with
  | notified =>
    have hsilent : Turn.sendings [⟨.resume, .notification (.telling []), c, c⟩] = [] :=
      Turn.sendings_singleton [] rfl
    have hunasked : Turn.askings [⟨.resume, .notification (.telling []), c, c⟩] = [] :=
      Removal.askings_of_noted [] rfl
    refine ⟨_, rfl, ?_, ?_, hnext _ rfl⟩
    · rw [Turn.sendings_cons, hsilent, List.append_nil]
      exact hsent
    · rw [Turn.askings_cons, hunasked, hasked]
      rfl
  | notifying d ds' =>
    obtain ⟨os, hj, hunasked, hdelivery⟩ := c.noted_send p d
    refine ⟨_, rfl, ?_, ?_, hnext _ (Client.registry_send c p d)⟩
    · rw [Turn.sendings_cons, Turn.sendings_singleton _ hj, hdelivery,
        ← hsent, List.append_assoc]
      refine congrArg _ ?_
      simp only [Stage.agenda]
      split <;> rfl
    · rw [Turn.askings_cons, Removal.askings_of_noted os hj, hunasked,
        hasked]
      rfl

end Notification

theorem Secluded.fares_notify {reply : Request → Answer} {e : WatchedEvent} {path : String}
    {paths : Set String} {p : Party} {s t : Engine} {w : Pursuit}
    (h : Secluded reply (.notify e) paths p s t w) (he : e.path = some path) (hpath : path ∈ paths)
    (hc : s.client.closed = false) :
    w.Fares p path s t (Notification.upshot e path s.client.registry) := by
  have hstart := Notification.start_telling hc he
  obtain ⟨ht, htask, hclient⟩ := h.begun.begun h.orderly
  have hlinked := h.linked hpath
  rw [hstart] at htask hclient hlinked
  rw [Client.registry_fire] at hlinked
  obtain ⟨_, o, hwtask, st, rfl, hsent, hasked, hkeeps⟩ := Pursuit.tells_run
    (fun o ts => ∃ st, o = .notification st ∧
      Notification.Told (Notification.firings e _) ts st) ht htask
    ⟨_, rfl, rfl, rfl, by simp⟩ (fun _ _ _ _ _ _ hm htells => Notification.told_move hm htells)
    h.steps
  cases st with
  | telling ds => exact fares_of_proceeds hwtask (Notification.proceeds_telling ds _ _)
  | done =>
    refine fares_of_outcome hwtask rfl ?_ ?_ (hlinked.eq fun x hx => hkeeps x hx path)
    · rw [hasked, Engine.asked_of_unasked (hclient ▸ s.client.unasked_fire path e)]
      rfl
    · exact (List.append_nil _).symm.trans hsent

/-! ### Removals -/

theorem Turn.exists_of_answer? {ts : List Turn} {q : Request} {a : Answer}
    (h : answer? ts q = some a) : ∃ x ∈ ts, x.reply? = some (q, a) := by
  obtain ⟨l₁, l₂, hl, _⟩ := List.lookup_eq_some_iff.mp h
  exact List.mem_filterMap.mp (hl ▸ List.mem_append_right _ (.head _))

theorem Turn.exists_of_checks {ts : List Turn} {y : Kind × Registry} (h : y ∈ checks ts) :
    ∃ x ∈ ts, y.2 = x.before.registry := by
  obtain ⟨x, hx, hy⟩ := List.mem_filterMap.mp (List.mem_reverse.mp h)
  refine ⟨x, hx, ?_⟩
  unfold check? at hy
  split at hy
  · exact (congrArg Prod.snd (Option.some.inj hy)).symm
  · cases hy

namespace Removal

variable {r : RemovalRequest} {reg reg' : Registry} {p : Party} {ts later earlier : List Turn}
  {x : Turn} {as : List Answer} {o : Settlement} {told : List Entry} {ks : List Kind}

theorem left_of_holders (h : ∀ path k, reg'.holders path k = (reg.holders path k).filter fun s =>
    !(decide (path = r.path ∧ k ∈ ks) && r.target.selects s)) :
    reg'.atPath r.path = left r reg ks := by
  refine Registry.atPath_ext fun k => (h r.path k).trans ?_
  rw [Registry.holders_takeOut, if_pos rfl]
  simp

theorem left_nil (r : RemovalRequest) (reg : Registry) : left r reg [] = reg.atPath r.path := by
  have hsame : ∀ path k, reg.holders path k = (reg.holders path k).filter fun s =>
      !(decide (path = r.path ∧ k ∈ []) && r.target.selects s) := by
    simp
  exact (left_of_holders hsame).symm

/-- How far a removal has come that settled without the server. -/
def Concludes (o : Settlement) (ts : List Turn) (st : Stage) : Prop :=
  ∃ told rest, o.removed = told ++ rest ∧ Turn.sendings ts = confirmations told ∧
    Turn.askings ts = [] ∧ (∀ y ∈ ts, y.Still) ∧
    (st.Owes o rest [] ∨ rest = [] ∧ st = .done o.result)

theorem Concludes.turn {y : Turn} {told rest es : List Entry} {st : Stage}
    (hremoved : o.removed = told ++ (es ++ rest)) (hsent : Turn.sendings ts = confirmations told)
    (hasked : Turn.askings ts = []) (hstill : ∀ z ∈ ts, z.Still) (hy : Aftermath r y es)
    (hchecks : Turn.checks [y] = []) (hst : st.Owes o rest [] ∨ rest = [] ∧ st = .done o.result) :
    Concludes o (y :: ts) st := by
  refine ⟨told ++ es, rest, by rw [hremoved, List.append_assoc], ?_, ?_, still_cons hy.still hstill,
    hst⟩
  · rw [Turn.sendings_cons, hsent, hy.sent, confirmations_append]
  · rw [Turn.askings_cons, hasked, hy.asked, hchecks]
    rfl

theorem concludes_move {op op' : Operation} {m : Move} {c c' : Client}
    (hm : op.move m p c = some (op', c')) (h : ∃ st, op = .removal r st ∧ Concludes o ts st) :
    ∃ st, op' = .removal r st ∧ Concludes o (⟨m, op, c, c'⟩ :: ts) st := by
  obtain ⟨st, rfl, told, rest, hremoved, hsent, hasked, hstill, howes | ⟨_, rfl⟩⟩ := h
  · cases Operation.moves hm with
    | removing r st st' c' resume =>
      obtain ⟨es, rest', ks', rfl, hks, hturn, hst'⟩ := aftermath_resume howes resume
      obtain ⟨hchecks, rfl⟩ := List.append_eq_nil_iff.mp hks.symm
      refine ⟨st', rfl, .turn hremoved hsent hasked hstill hturn (List.map_eq_nil_iff.mp hchecks) ?_⟩
      exact hst'.imp id fun ⟨hrest, _, hdone⟩ => ⟨hrest, hdone⟩
    | settling r slot x st st' c' answer =>
      obtain ⟨rfl, hchecks, hturn, hst'⟩ := aftermath_answer howes answer
      exact ⟨st', rfl, .turn hremoved hsent hasked hstill hturn hchecks (.inl hst')⟩
  · cases Operation.moves hm with
    | removing r st st' c' resume => cases resume
    | settling r slot x st st' c' answer => cases answer

theorem Reckons.verdicts_eq {reply : Request → Answer} {pl : Plan}
    (h : Reckons r pl later x earlier as o told)
    (hanswered : ∀ y ∈ later ++ x :: earlier, ∀ q a, y.reply? = some (q, a) → a = reply q) :
    pl.server.zip as = pl.server.map fun k => (k, reply (.remove r.path k)) := by
  have hreply : ∀ y ∈ pl.server.zip as, y = (y.1, reply (.remove r.path y.1)) := by
    rintro ⟨k, a⟩ hy
    obtain ⟨z, hz, hza⟩ := Turn.exists_of_answer? ((mem_zip_iff_reply h.heard).mp hy)
    rw [hanswered z hz _ _ hza]
  calc pl.server.zip as
      = (pl.server.zip as).map fun y => (y.1, reply (.remove r.path y.1)) :=
        ((List.map_congr_left fun y hy => (hreply y hy).symm).trans (List.map_id _)).symm
    _ = ((pl.server.zip as).map Prod.fst).map fun k => (k, reply (.remove r.path k)) := by
        rw [List.map_map]
        rfl
    _ = _ := by rw [List.map_fst_zip h.all.ge]

theorem Reckons.left_eq {pl : Plan} (h : Reckons r pl later x earlier as o told) :
    x.after.registry.atPath r.path =
      left r x.before.registry (departed r (pl.server.zip as) pl.here) := by
  obtain ⟨o', hreckoned, _⟩ := h.exists_reckoned
  exact left_of_holders hreckoned.holders

/-- Nobody is found to hold a kind anew that the server dropped, if nobody else was at the path. -/
theorem Reckons.unarmed {h' : Holders} (h : Reckons r (plan r reg) later x earlier as o told)
    (hsame : x.before.registry.atPath r.path = reg.atPath r.path)
    (hlinked : Turn.Linked r.path (x.after.registry.atPath r.path) later h')
    (hlooked : (Turn.checks later).map Prod.fst = o.cleared) :
    rearmings r (Turn.checks later) = [] := by
  obtain ⟨o', hreckoned, rfl⟩ := h.exists_reckoned
  refine List.map_eq_nil_iff.mpr (List.filter_eq_nil_iff.mpr fun y hy => ?_)
  obtain ⟨z, hz, hreg⟩ := Turn.exists_of_checks hy
  have hkeeps : ∀ z ∈ later, z.Keeps r.path := fun z hz =>
    (h.still z (List.mem_append_left _ hz)).keeps _
  have hfound : y.2.atPath r.path = x.after.registry.atPath r.path :=
    hreg ▸ hlinked.before_eq hkeeps z hz
  have hcleared : y.1 ∈ o'.cleared := hlooked ▸ List.mem_map_of_mem hy
  have hholders := hreckoned.holders r.path y.1
  rw [Registry.holders_of_atPath hsame] at hholders
  simp only [true_and] at hholders
  have hunheld := unheld_of_accepted (fun y hy => (List.of_mem_zip hy).1)
    (hreckoned.cleared ▸ hcleared) hholders
  simp [Registry.holders_of_atPath hfound, hunheld]

end Removal

section

variable {reply : Request → Answer} {r : RemovalRequest} {paths : Set String} {p : Party}
  {s t : Engine} {w : Pursuit}

open Removal

theorem Secluded.fares_invalid (h : Secluded reply (.remove r) paths p s t w)
    (hpath : r.path ∈ paths) (hc : s.client.closed = false) {f : Fault}
    (hf : Path.validate r.path = .error f) :
    w.Fares p r.path s t ⟨.removal (.error f), [], [], s.client.registry.atPath r.path⟩ := by
  have hstart : Operation.start (.remove r) s.client =
      (.removal r (.done (.error f)), s.client) := by
    simp only [Operation.start_remove hc, Removal.start, hf]
  exact h.fares_of_finished hpath hstart rfl (.refl _)

theorem Secluded.fares_local (h : Secluded reply (.remove r) paths p s t w)
    (hpath : r.path ∈ paths) (hc : s.client.closed = false) (hr : r.registryOnly = true)
    (hv : Path.isValid r.path = true) :
    w.Fares p r.path s t (upshotLocal r s.client.registry) := by
  have hunasked := unasked_start r s.client
  have hleft := left_of_holders (holders_unregister r s.client)
  have hlocal := start_local hr hv s.client
  have hstart := Operation.start_remove hc r
  unfold upshotLocal
  generalize r.kind.kinds.flatMap (selected r s.client.registry) = es at hlocal ⊢
  by_cases hnone : es = []
  · rw [if_pos hnone] at hlocal
    rw [hlocal] at hstart hunasked
    have hfares := h.fares_of_finished hpath hstart rfl hunasked
    simp only [hnone, if_true]
    rw [← hleft]
    exact hfares
  · rw [if_neg hnone] at hlocal
    rw [hlocal] at hstart hunasked
    obtain ⟨ht, htask, hclient⟩ := h.begun.begun h.orderly
    have hlinked := h.linked hpath
    rw [hstart] at htask hclient hlinked
    have hbegin : Concludes ⟨es, [], none⟩ [] (.confirming es ⟨es, [], none⟩) :=
      ⟨[], es, rfl, rfl, rfl, by simp, .inl (.confirming _ _)⟩
    obtain ⟨_, _, hwtask, st, rfl, told, rest, hremoved, hsent, hasked, hstill, hst⟩ :=
      Pursuit.tells_run (fun op ts => ∃ st, op = .removal r st ∧ Concludes ⟨es, [], none⟩ ts st) ht
        htask ⟨_, rfl, hbegin⟩ (fun _ _ _ _ _ _ hm htells => concludes_move hm htells) h.steps
    rcases hst with howes | ⟨rfl, rfl⟩
    · refine fares_of_proceeds hwtask ((howes.proceeds _).operation ?_)
      rintro result rfl
      cases howes
    · obtain rfl : es = told := hremoved.trans (List.append_nil _)
      refine fares_of_outcome hwtask ?_ ?_ hsent ?_
      · dsimp only
        rw [if_neg hnone]
        rfl
      · rw [hasked, Engine.asked_of_unasked (hclient ▸ hunasked)]
        rfl
      · exact (hlinked.eq fun y hy => (hstill y hy).keeps _).trans hleft

theorem Removal.upshotRemote_of_empty {reg : Registry} (hserver : (plan r reg).server = [])
    (hhere : (plan r reg).here = []) :
    upshotRemote reply r reg = ⟨.removal (nothing r), [], [], reg.atPath r.path⟩ := by
  obtain ⟨s, htarget⟩ := target_of_empty hserver
  have hresult : (settlement r (plan r reg) [] []).result = nothing r := by
    cases hq : r.quiet <;> simp [nothing, settlement, missed, htarget, hq, Settlement.result]
  simp only [upshotRemote, hserver, hhere, List.map_nil, departed, List.filter_nil, List.append_nil,
    List.flatMap_nil, hresult, requests, left_nil]
  rfl

theorem Secluded.fares_remote (h : Secluded reply (.remove r) paths p s t w)
    (hpath : r.path ∈ paths) (hc : s.client.closed = false) (hr : r.registryOnly = false)
    (hv : Path.isValid r.path = true) :
    w.Fares p r.path s t (upshotRemote reply r s.client.registry) := by
  have hunasked := unasked_start r s.client
  have hremote := start_remote hr hv s.client
  have hstart := Operation.start_remove hc r
  by_cases hempty : (plan r s.client.registry).server = [] ∧ (plan r s.client.registry).here = []
  · rw [if_pos hempty] at hremote
    rw [hremote] at hstart hunasked
    have hfares := h.fares_of_finished hpath hstart rfl hunasked
    rw [upshotRemote_of_empty hempty.1 hempty.2]
    exact hfares
  · rw [if_neg hempty] at hremote
    rw [hremote] at hstart
    obtain ⟨_, _, hclient⟩ := h.begun.begun h.orderly
    have hlinked := h.linked hpath
    rw [hstart] at hclient hlinked
    have hbegin : Traced r s.client.registry [] (.asking (plan r s.client.registry) []) →
        Inquired r s.client.registry [] (.asking (plan r s.client.registry) []) :=
      fun htraced => .asking _ _ htraced rfl
    obtain ⟨st, htask, ⟨hserver, hhere, _⟩ | hinquired⟩ := remote_run h.orderly hc hr hv
      h.begun.undertakes hbegin (fun _ _ _ _ _ _ hm htells => inquired_move hm htells) h.steps
    · exact absurd ⟨hserver, hhere⟩ hempty
    by_cases hd : ∃ result, st = .done result
    · obtain ⟨result, rfl⟩ := hd
      cases hinquired with
      | owing _ o told rest looked ks owes => cases owes
      | done o traded =>
        obtain ⟨later, x, earlier, as, hturns, hreckons, hexchanges, hlooked⟩ := traded
        rw [hturns, Turn.linked_append_cons] at hlinked
        obtain ⟨hlater, hearlier⟩ := hlinked
        have hkeeps : ∀ y ∈ later ++ earlier, y.Keeps r.path := fun y hy =>
          (hreckons.still y hy).keeps _
        have hbefore : x.before.registry.atPath r.path = s.client.registry.atPath r.path :=
          hearlier.eq fun y hy => hkeeps y (List.mem_append_right _ hy)
        have hafter := hlater.eq fun y hy => hkeeps y (List.mem_append_left _ hy)
        have hunarmed := hreckons.unarmed hbefore hlater hlooked
        have hverdicts := hreckons.verdicts_eq fun y hy => h.answered y (hturns ▸ hy)
        have ho := reconcile_eq s.client.registry hreckons.all x.before
        have hleft := hreckons.left_eq
        rw [hreckons.reckoned, hverdicts, funext (selected_congr hbefore)] at ho
        rw [hverdicts, left_congr hbefore] at hleft
        refine fares_of_outcome htask (congrArg (some ∘ Outcome.removal ∘ Settlement.result) ho) ?_
          ?_ (hafter.trans hleft)
        · rw [Engine.asked_of_unasked (hclient ▸ .refl _), hturns, hexchanges.askings, hunarmed,
            List.append_nil]
          rfl
        · rw [hturns, hreckons.sendings]
          exact congrArg (confirmations ∘ Settlement.removed) ho
    · have hnot : ∀ result, st ≠ .done result := fun result he => hd ⟨result, he⟩
      exact fares_of_proceeds htask ((hinquired.traced.proceeds hnot _).operation hnot)

end

end NodeWatch
